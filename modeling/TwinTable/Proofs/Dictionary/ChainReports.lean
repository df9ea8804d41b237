/-
What a report says of an array is so.

A report is made by one pass over the buckets, in which each chain is followed from its head
and its length is put where it belongs (`Chains.add`). What the report has taken down after
some chains is a matter of their lengths alone (`Chains.Sums`): one more length keeps it
(`Sums.add`), and so do all of them.

The number of entries is another matter. It is not found on the way but is the counter of the
array, which every insertion and every move keeps up to date. That it is the total of the
lengths is the layout's (`Buckets.Sound.counted`), and with it that an array that counts
entries has a bucket that is not empty, so that the averages are averages of something.

Following a chain is a loop over links, and these are laid open here as well: on links the
report fails nowhere, and comes to what it is on lists (`Linked.Represents.chains`).
-/
import TwinTable.Dictionary.Report
import TwinTable.Proofs.Dictionary.LinkedOperations

set_option autoImplicit false

namespace TwinTable

variable {κ ν : Type}

namespace Chains

/-! ## Length by length -/

/-- What was taken down of chains that have these lengths, for an array of a given size that
counts so many entries. -/
structure Sums (c : Chains) (size used : Nat) (lengths : List Nat) : Prop where
  size : c.size = size
  used : c.used = used
  counts : ∀ n (h : n < 50), c.histogram[n] = lengths.countP fun length => min length 49 = n
  slots : c.slots = lengths.countP fun length => length ≠ 0
  total : c.total = lengths.sum
  longest : c.longest = 0 ∨ c.longest ∈ lengths
  le_longest : ∀ length ∈ lengths, length ≤ c.longest

theorem sums_start (size used : Nat) : (start size used).Sums size used [] where
  size := rfl
  used := rfl
  counts n h := by
    rw [List.countP_nil]
    exact Vector.getElem_replicate h
  slots := rfl
  total := rfl
  longest := .inl rfl
  le_longest := fun _ h => absurd h List.not_mem_nil

/-- A length goes to its own count, or to the last one. -/
theorem histogram_add (c : Chains) (length : Nat) {n : Nat} (h : n < 50) :
    (c.add length).histogram[n] = c.histogram[n] + if min length 49 = n then 1 else 0 := by
  have hset : ∀ i (hi : i < 50), (c.histogram.set i (c.histogram[i] + 1) hi)[n] =
      c.histogram[n] + if i = n then 1 else 0 := by
    intro i hi
    rw [Vector.getElem_set]
    split
    · rename_i he
      subst he
      rfl
    · rfl
  have hslot : min length 49 < 50 := Nat.lt_of_le_of_lt (Nat.min_le_right ..) (by decide)
  rw [← hset _ hslot, add]
  split <;> rfl

/-- **One more chain.** -/
theorem Sums.add {c : Chains} {size used : Nat} {lengths : List Nat}
    (h : c.Sums size used lengths) (length : Nat) :
    (c.add length).Sums size used (lengths ++ [length]) := by
  have hcounts : ∀ n (hn : n < 50), (c.add length).histogram[n] =
      (lengths ++ [length]).countP fun length => min length 49 = n := by
    intro n hn
    rw [histogram_add c length hn, h.counts n hn, List.countP_append, List.countP_singleton]
    simp
  rw [Chains.add] at hcounts ⊢
  -- an empty chain is counted, and that is all
  split
  · rename_i hzero
    rw [if_pos hzero] at hcounts
    subst hzero
    refine ⟨h.size, h.used, hcounts, ?_, ?_, ?_, ?_⟩
    · simp [h.slots]
    · simp [h.total]
    · rcases h.longest with hnone | hmem
      · exact .inl hnone
      · exact .inr (List.mem_append_left _ hmem)
    · intro n hn
      rcases List.mem_append.mp hn with hn | hn
      · exact h.le_longest n hn
      · rw [List.mem_singleton.mp hn]
        exact Nat.zero_le _
  · rename_i hpos
    rw [if_neg hpos] at hcounts
    refine ⟨h.size, h.used, hcounts, ?_, ?_, ?_, ?_⟩
    · simp [h.slots, hpos]
    · simp [h.total]
    · rcases Nat.le_total c.longest length with hle | hle
      · exact .inr (by simp [hle])
      · rcases h.longest with hnone | hmem
        · exact absurd (Nat.le_zero.mp (hnone ▸ hle)) hpos
        · exact .inr (by simp [hle, hmem])
    · intro n hn
      rcases List.mem_append.mp hn with hn | hn
      · exact Nat.le_trans (h.le_longest n hn) (Nat.le_max_left ..)
      · rw [List.mem_singleton.mp hn]
        exact Nat.le_max_right ..

theorem Sums.foldl {size used : Nat} (lengths : List Nat) : ∀ {c : Chains} {before : List Nat},
    c.Sums size used before →
      (lengths.foldl Chains.add c).Sums size used (before ++ lengths) := by
  induction lengths with
  | nil =>
    intro c before h
    rwa [List.append_nil]
  | cons length lengths ih =>
    intro c before h
    rw [List.append_cons]
    exact ih (h.add length)

/-- Counting numbers one by one, and all from a last one on together, counts each once. -/
theorem sum_countP_min (last : Nat) (lengths : List Nat) :
    ∑ n ∈ Finset.range (last + 1), lengths.countP (fun length => min length last = n) =
      lengths.length := by
  induction lengths with
  | nil => simp
  | cons length lengths ih =>
    simp only [List.countP_cons, decide_eq_true_eq, Finset.sum_add_distrib, ih]
    rw [Finset.sum_ite_eq, if_pos (Finset.mem_range.mpr (by omega)), List.length_cons]

/-- Each chain has one of the counts. -/
theorem Sums.sum_histogram {c : Chains} {size used : Nat} {lengths : List Nat}
    (h : c.Sums size used lengths) :
    c.histogram.toList.sum = lengths.length := by
  have hlist : c.histogram.toList =
      List.ofFn fun n : Fin 50 => lengths.countP fun length => min length 49 = n.val := by
    refine List.ext_getElem (by rw [Vector.length_toList, List.length_ofFn]) ?_
    intro n h₁ h₂
    have hn : n < 50 := by rwa [List.length_ofFn] at h₂
    rw [List.getElem_ofFn, Vector.getElem_toList, h.counts n hn]
  rw [hlist, List.sum_ofFn, ← sum_countP_min 49, Finset.sum_range]

/-! ## An array -/

/-- What a report owes to an array that has entries. -/
structure Agrees (c : Chains) (t : Buckets κ ν) : Prop where
  size : c.size = t.size
  used : c.used = t.used
  /-- The chains of each length below the last one that is counted. -/
  counts : ∀ n (h : n < 49),
    c.histogram[n] = (List.range t.size).countP fun i => (t.chain i).length = n
  last : c.histogram[49] = (List.range t.size).countP fun i => 49 ≤ (t.chain i).length
  /-- Each bucket is in one of the counts. -/
  sum_counts : c.histogram.toList.sum = t.size
  slots : c.slots = (List.range t.size).countP fun i => (t.chain i).length ≠ 0
  /-- There is something to take the averages over. -/
  slots_pos : 1 ≤ c.slots
  total : c.total = t.used
  /-- The counted and the computed average. -/
  averages : Double.ofRatio c.total c.slots = Double.ofRatio c.used c.slots
  longest : ∃ i < t.size, (t.chain i).length = c.longest
  le_longest : ∀ i < t.size, (t.chain i).length ≤ c.longest

/-- The lengths of the chains of an array, bucket after bucket. -/
def lengths (t : Buckets κ ν) : List Nat := (List.range t.size).map fun i => (t.chain i).length

/-- A report on entries goes through the lengths. -/
theorem ofBuckets_eq {t : Buckets κ ν} (hused : t.used ≠ 0) :
    ofBuckets t = (lengths t).foldl add (start t.size t.used) := by
  rw [ofBuckets, if_neg hused, ← Array.foldl_toList, Buckets.toList_chains, lengths,
    List.foldl_map, List.foldl_map]

theorem sums_ofBuckets {t : Buckets κ ν} (hused : t.used ≠ 0) :
    (ofBuckets t).Sums t.size t.used (lengths t) := by
  rw [ofBuckets_eq hused]
  exact (sums_start t.size t.used).foldl (lengths t)

theorem used_ofBuckets (t : Buckets κ ν) : (ofBuckets t).used = t.used := by
  by_cases hused : t.used = 0
  · rw [ofBuckets, if_pos hused]
    rfl
  · exact (sums_ofBuckets hused).used

theorem sum_lengths (t : Buckets κ ν) : (lengths t).sum = t.toList.length := by
  rw [lengths, Buckets.toList_eq_flatMap, List.length_flatMap]

theorem countP_lengths (t : Buckets κ ν) (p : Nat → Bool) :
    (lengths t).countP p = (List.range t.size).countP fun i => p (t.chain i).length :=
  List.countP_map ..

/-- **A report on an array with entries** says how the array is. -/
theorem agrees_ofBuckets {t : Buckets κ ν} (ht : t.Sound) (hused : t.used ≠ 0) :
    (ofBuckets t).Agrees t := by
  have hsums := sums_ofBuckets hused
  have htotal : (ofBuckets t).total = t.used := by
    rw [hsums.total, sum_lengths, ht.counted]
  have hcounts : ∀ n (hn : n < 50), (ofBuckets t).histogram[n] =
      (List.range t.size).countP fun i => min (t.chain i).length 49 = n := by
    intro n hn
    rw [hsums.counts n hn, countP_lengths]
  -- entries that are counted are somewhere
  obtain ⟨i, -, hi, hne⟩ := ht.exists_chain_ne_nil hused (i := 0) fun _ h => absurd h (by omega)
  have hmem : (t.chain i).length ∈ lengths t := List.mem_map_of_mem (List.mem_range.mpr hi)
  have hlength : (t.chain i).length ≠ 0 := mt List.length_eq_zero_iff.mp hne
  have hlongest : (ofBuckets t).longest ≠ 0 := by
    have hle := hsums.le_longest _ hmem
    omega
  refine
    { size := hsums.size
      used := hsums.used
      counts := fun n hn => ?_
      last := ?_
      sum_counts := ?_
      slots := ?_
      slots_pos := ?_
      total := htotal
      averages := ?_
      longest := ?_
      le_longest := fun j hj =>
        hsums.le_longest _ (List.mem_map_of_mem (List.mem_range.mpr hj)) }
  · rw [hcounts n (by omega)]
    refine List.countP_congr fun i _ => ?_
    simp only [decide_eq_true_eq]
    omega
  · rw [hcounts 49 (by omega)]
    refine List.countP_congr fun i _ => ?_
    simp only [decide_eq_true_eq]
    omega
  · rw [hsums.sum_histogram, lengths, List.length_map, List.length_range]
  · rw [hsums.slots, countP_lengths]
  · rw [hsums.slots]
    exact List.countP_pos_iff.mpr ⟨_, hmem, by simpa using hlength⟩
  · rw [htotal, hsums.used]
  · obtain ⟨j, hj, he⟩ := List.mem_map.mp (hsums.longest.resolve_left hlongest)
    exact ⟨j, List.mem_range.mp hj, he⟩

/-! ## On links -/

/-- The chains of an array of heads, each followed from where it begins. -/
def ofHeads (slab : Slab κ ν) (fuel : Nat) (t : Heads) : Option Chains :=
  if t.used = 0 then
    some (start t.size t.used)
  else
    (List.range t.size).foldlM (fun c i => do
      let chain ← slab.gather fuel (t.head i)
      return c.add chain.length) (start t.size t.used)

/-- A report on links comes to what the chains are. -/
theorem ofHeads_eq {slab : Slab κ ν} {fuel : Nat} {t : Heads} {b : Buckets κ ν}
    (h : Heads.Holds slab t b) (hfuel : ∀ i, (b.chain i).length ≤ fuel) :
    ofHeads slab fuel t = some (ofBuckets b) := by
  have hstep : (fun (c : Chains) (i : Nat) => do
      let chain ← slab.gather fuel (t.head i)
      return c.add chain.length) = fun c i => pure (c.add (b.chain i).length) := by
    funext c i
    rw [(h.leads i).gather (hfuel i)]
    rfl
  rw [ofHeads, h.size, h.used]
  by_cases hused : b.used = 0
  · rw [if_pos hused, ofBuckets, if_pos hused]
  · rw [if_neg hused, hstep, List.foldlM_pure, ofBuckets_eq hused, lengths, List.foldl_map]
    rfl

end Chains

namespace Linked

/-- The arrays in use, with what there is to say about their chains. -/
def chains (l : Linked κ ν) : Option (List (Side × Chains)) := do
  let main ← Chains.ofHeads l.slab l.issued l.main
  if l.migrating then
    let target ← Chains.ofHeads l.slab l.issued l.target
    return [(.main, main), (.target, target)]
  else
    return [(.main, main)]

/-- **A report on links** fails nowhere, and is the one on lists. -/
theorem Represents.chains {l : Linked κ ν} {d : Dictionary κ ν} {st : Settings}
    (h : Represents st l d) (hd : d.Shape) : l.chains = some d.chains := by
  have hside : ∀ s, Chains.ofHeads l.slab l.issued (l.side s) =
      some (.ofBuckets (d.side s)) := fun s =>
    Chains.ofHeads_eq (h.side s) (h.length_chain_le hd s)
  have hmain : Chains.ofHeads l.slab l.issued l.main = some (.ofBuckets d.main) := hside .main
  have htarget : Chains.ofHeads l.slab l.issued l.target = some (.ofBuckets d.target) :=
    hside .target
  rw [Linked.chains, Dictionary.chains, h.migrating_eq, hmain, htarget]
  cases d.migrating <;> rfl

end Linked

namespace Dictionary

variable {d : Dictionary κ ν}

/-- An array with entries is in use. -/
theorem Shape.mem_chains (hd : d.Shape) {s : Side} (hused : (d.side s).used ≠ 0) :
    (s, Chains.ofBuckets (d.side s)) ∈ d.chains := by
  rw [chains]
  cases hm : d.migrating with
  | true =>
    cases s with
    | main => exact List.mem_cons_self
    | target => exact List.mem_cons_of_mem _ List.mem_cons_self
  | false =>
    cases s with
    | main => exact List.mem_cons_self
    | target =>
      have hnone : d.side .target = .unallocated := hd.settled (migrating_eq_false.mp hm)
      rw [hnone] at hused
      exact absurd rfl hused

/-- Nothing is in an array that is not in use. -/
theorem Shape.sum_used_chains (hd : d.Shape) :
    (d.chains.map fun (_, c) => c.used).sum = d.size := by
  rw [chains, size]
  cases hm : d.migrating with
  | true => simp [Chains.used_ofBuckets]
  | false =>
    rw [hd.settled (migrating_eq_false.mp hm)]
    simp [Chains.used_ofBuckets, Buckets.unallocated]

end Dictionary

namespace Situation

variable {σ : Type} (K : Keying κ ν) (g : WordSource σ)

open Dictionary

/-- **A report on the chains agrees with the arrays.** Take any dictionary that a new one can
come to. Its report is made by following links, and that goes wrong nowhere. The numbers of
entries in the sections add up to the number of entries in all. And each array that has entries
has its section, in which the counts of the chains by their length, the number of buckets that
are not empty, of which there is at least one, and the longest chain are those of the array; the
total is the number of entries, although that is kept and not counted, so that the two averages
are the same. -/
theorem report_agrees_with_arrays (settings : Settings) (words : σ)
    (ops : List (Operation κ ν)) :
    let d := ((start settings words).after K g ops).dictionary
    (∃ l, (Linked.start settings).after K ops = some l ∧ l.chains = some d.chains) ∧
      (d.chains.map fun (_, c) => c.used).sum = d.size ∧ d.size = d.toList.length ∧
      ∀ s, (d.side s).used ≠ 0 →
        ∃ c, (s, c) ∈ d.chains ∧ c = .ofBuckets (d.side s) ∧ c.Agrees (d.side s) := by
  intro d
  have hd : d.Shape := shape_after K g settings words ops
  obtain ⟨l, hl, h⟩ := Linked.Represents.after K g ops
    (s := start settings words) (Linked.represents_start settings) shape_empty
  refine ⟨⟨l, hl, h.chains hd⟩, hd.sum_used_chains, hd.size_eq, ?_⟩
  intro s hused
  exact ⟨_, hd.mem_chains hused, rfl, Chains.agrees_ofBuckets (hd.side s) hused⟩

/-- Five numbers, three of them in one chain of the array of four; the fifth is in the target. -/
theorem report_agrees_for_five_on_the_move :
    let d := ((start .standard 0).after (Keying.numbers String) WordSource.splitMix
      [.add 0 "a", .add 4 "b", .add 8 "c", .add 1 "d", .add 2 "e"]).dictionary
    d.main.used = 4 ∧ d.target.used = 1 ∧
      ∃ c c', (.main, c) ∈ d.chains ∧ c.longest = 3 ∧ c.Agrees d.main ∧
        (.target, c') ∈ d.chains ∧ c'.slots = 1 ∧ c'.Agrees d.target := by
  intro d
  have hmain : d.main.used = 4 := by decide +kernel
  have htarget : d.target.used = 1 := by decide +kernel
  obtain ⟨-, -, -, hsections⟩ := report_agrees_with_arrays (Keying.numbers String)
    WordSource.splitMix .standard 0
    [.add 0 "a", .add 4 "b", .add 8 "c", .add 1 "d", .add 2 "e"]
  obtain ⟨c, hc, he, h⟩ := hsections .main (hmain ▸ by decide)
  obtain ⟨c', hc', he', h'⟩ := hsections .target (htarget ▸ by decide)
  have hlongest : (Chains.ofBuckets d.main).longest = 3 := by decide +kernel
  have hslots : (Chains.ofBuckets d.target).slots = 1 := by decide +kernel
  exact ⟨hmain, htarget, c, c', hc, he ▸ hlongest, h, hc', he' ▸ hslots, h'⟩

end Situation

end TwinTable
