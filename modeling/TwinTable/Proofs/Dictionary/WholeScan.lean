/-
A scan of a dictionary that nobody changes.

What a scan owes to a dictionary that changes under it is in `ScanCompleteness`: it misses
nothing that stays, and may see an entry twice. Here nothing changes, and then it sees each
entry once.

Starting at zero, the cursors are the starts of the intervals of the smaller array in use, one
after the other (`cursorAfter_eq`), so that there are as many calls as this array has buckets.
The bucket of an interval is a bijection between the intervals of an array and its buckets
(`perm_bucketAt`). A call against two arrays also covers the intervals of the larger one that
lie inside the interval of the smaller one; and these rows, one for each call, make up all
intervals of the larger array (`flatMap_range'_mul`). So each bucket of each array is covered
in exactly one call.
-/
import TwinTable.Proofs.Dictionary.CursorOrder

set_option autoImplicit false

namespace TwinTable

namespace Cursor

/-! ## Rows of intervals -/

/-- Rows of equal length, each where the one before ends, are one long row. -/
theorem flatMap_range'_mul (rows length : Nat) :
    ((List.range rows).flatMap fun j => List.range' (j * length) length) =
      List.range (rows * length) := by
  induction rows with
  | zero => rw [Nat.zero_mul]; rfl
  | succ rows ih =>
    have hnext := List.range'_append_1 (s := 0) (m := rows * length) (n := length)
    rw [Nat.zero_add, ← List.range_eq_range', ← List.range_eq_range'] at hnext
    rw [List.range_succ, List.flatMap_append, ih, List.flatMap_singleton, hnext, Nat.succ_mul]

/-- **Each bucket has one interval.** -/
theorem perm_bucketAt {n : Nat} (hn : n ≤ 64) :
    ((List.range (2 ^ n)).map (bucketAt n)).Perm (List.range (2 ^ n)) := by
  have hdistinct : ((List.range (2 ^ n)).map (bucketAt n)).Nodup := by
    refine List.Nodup.map_on ?_ List.nodup_range
    intro i hi j hj hij
    -- the bucket is the cursor at the start of the interval, which has the rank of the start
    have hrank := congrArg rank (UInt64.toNat_inj.mp hij)
    rw [rank_ofRank_mul hn (List.mem_range.mp hi), rank_ofRank_mul hn (List.mem_range.mp hj)]
      at hrank
    exact Nat.eq_of_mul_eq_mul_right (Nat.two_pow_pos _) hrank
  have hinside : (List.range (2 ^ n)).map (bucketAt n) ⊆ List.range (2 ^ n) := by
    intro i hi
    obtain ⟨j, hj, rfl⟩ := List.mem_map.mp hi
    exact List.mem_range.mpr (bucketAt_lt hn (List.mem_range.mp hj))
  refine (List.subperm_of_subset hdistinct hinside).perm_of_length_le ?_
  rw [List.length_map]

/-- Behind the last interval comes the first cursor again. -/
theorem ofRank_two_pow {n : Nat} (hn : n ≤ 64) : ofRank (2 ^ n * 2 ^ (64 - n)) = 0 := by
  rw [← Nat.pow_add, Nat.add_sub_cancel' hn]
  refine rank_injective ?_
  rw [rank_ofRank, Nat.mod_self, rank_zero]

/-- No interval but the first starts at zero. -/
theorem ofRank_mul_ne_zero {n j : Nat} (hn : n ≤ 64) (hpos : 0 < j) (hj : j < 2 ^ n) :
    ofRank (j * 2 ^ (64 - n)) ≠ 0 := by
  intro hzero
  have hrank := rank_ofRank_mul hn hj
  rw [hzero, rank_zero] at hrank
  exact absurd hrank.symm (Nat.mul_ne_zero hpos.ne' (Nat.two_pow_pos _).ne')

end Cursor

namespace Buckets

variable {κ ν : Type}

/-- The chains of an array in the order of its intervals. -/
theorem flatMap_chain_bucketAt (t : Buckets κ ν) {n : Nat} (hn : n ≤ 64) (h : t.size = 2 ^ n) :
    ((List.range (2 ^ n)).flatMap fun j => t.chain (Cursor.bucketAt n j)).Perm t.toList := by
  have hperm := (Cursor.perm_bucketAt hn).flatMap_right t.chain
  rwa [List.flatMap_map, ← h, ← toList_eq_flatMap, h] at hperm

end Buckets

namespace Dictionary

open Cursor

variable {κ ν : Type} {d : Dictionary κ ν}

/-! ## Calls one after the other -/

/-- The cursor after so many calls of a scan that begins at zero. -/
def cursorAfter (d : Dictionary κ ν) : (calls : Nat) → UInt64
  | 0 => 0
  | calls + 1 => (d.scan (d.cursorAfter calls)).2

/-- What the next call visits after so many calls. -/
def visitedAfter (d : Dictionary κ ν) (calls : Nat) : List (Binding κ ν) :=
  (d.scan (d.cursorAfter calls)).1

/-- The number of buckets of the smaller array in use. -/
def fewestBuckets (d : Dictionary κ ν) : Nat :=
  if d.migrating then min d.main.size d.target.size else d.main.size

/-- **The cursors of a scan** are the starts of the intervals, if each call goes on to the
next one. -/
theorem cursorAfter_eq {n : Nat}
    (hnext : ∀ j < 2 ^ n, (d.cover (ofRank (j * 2 ^ (64 - n)))).2 =
      ofRank ((j + 1) * 2 ^ (64 - n))) :
    ∀ calls ≤ 2 ^ n, d.cursorAfter calls = ofRank (calls * 2 ^ (64 - n)) := by
  intro calls
  induction calls with
  | zero =>
    intro _
    rw [Nat.zero_mul, cursorAfter]
    exact rank_injective (by rw [rank_ofRank, rank_zero, Nat.zero_mod])
  | succ calls ih =>
    intro hcalls
    rw [cursorAfter, ih (Nat.le_of_succ_le hcalls)]
    exact hnext calls hcalls

/-- A scan that comes back to zero with one of its calls, and with none before, makes exactly
these calls. -/
theorem scanFrom_eq {calls : Nat} (hback : d.cursorAfter calls = 0)
    (hon : ∀ i, 0 < i → i < calls → d.cursorAfter i ≠ 0) :
    ∀ (most i : Nat) (before : List (List (Binding κ ν))), i < calls → calls - i ≤ most →
      d.scanFrom most before (d.cursorAfter i) =
        before.reverse ++ (List.range' i (calls - i)).map d.visitedAfter := by
  intro most
  -- induction on the calls that may still be made, of which there are enough
  induction most with
  | zero => intro i before hi hmost; omega
  | succ most ih =>
    intro i before hi hmost
    have hcall : d.scan (d.cursorAfter i) = (d.visitedAfter i, d.cursorAfter (i + 1)) := rfl
    have hcount : calls - i = calls - (i + 1) + 1 := by omega
    rw [scanFrom, hcall, hcount, List.range'_succ, List.map_cons]
    rcases Nat.lt_or_ge (i + 1) calls with hmore | hlast
    · split
      · rename_i hzero
        exact absurd (congrArg Prod.snd hzero) (hon (i + 1) (Nat.succ_pos i) hmore)
      · rename_i entries next _ hpair
        obtain ⟨rfl, rfl⟩ := Prod.mk.inj hpair
        rw [ih (i + 1) _ hmore (by omega), List.reverse_cons, List.append_assoc]
        rfl
    · obtain rfl : calls = i + 1 := by omega
      rw [hback, Nat.sub_self]
      exact List.reverse_cons

/-! ## What the calls cover -/

theorem fewestBuckets_of_settled (hm : d.migrating = false) : d.fewestBuckets = d.main.size := by
  rw [fewestBuckets, if_neg (by simp [hm])]

theorem fewestBuckets_of_migrating {small large : Side} (hm : d.migrating = true)
    (hother : small ≠ large) (hle : (d.side small).size ≤ (d.side large).size) :
    d.fewestBuckets = (d.side small).size := by
  rw [fewestBuckets, if_pos hm]
  cases small <;> cases large
  · exact absurd rfl hother
  · exact Nat.min_eq_left hle
  · exact Nat.min_eq_right hle
  · exact absurd rfl hother

/-- The entries are those of the two arrays, whichever comes first. -/
theorem perm_toList_of_ne {s s' : Side} (h : s ≠ s') :
    ((d.side s).toList ++ (d.side s').toList).Perm d.toList := by
  cases s <;> cases s'
  · exact absurd rfl h
  · exact .refl _
  · exact List.perm_append_comm
  · exact absurd rfl h

/-- **A call at rest** covers the bucket of its interval. -/
theorem Shape.cover_of_settled (hd : d.Shape) (hne : d.isEmpty = false)
    (hm : d.migrating = false) : ∃ n ≤ 63, d.main.size = 2 ^ n ∧ ∀ j < 2 ^ n,
      d.cover (ofRank (j * 2 ^ (64 - n))) =
        ([(.main, bucketAt n j)], ofRank ((j + 1) * 2 ^ (64 - n))) := by
  have htarget := hd.settled (migrating_eq_false.mp hm)
  have hsize : d.main.size ≠ 0 := by
    intro hzero
    rw [isEmpty, decide_eq_false_iff_not, size, htarget, hd.main.eq_unallocated hzero] at hne
    exact hne rfl
  obtain ⟨n, -, hn, hmain⟩ := hd.main.exists_size hsize
  refine ⟨n, hn, hmain, fun j hj => ?_⟩
  rw [cover_settled hne hm hn hmain, rank_ofRank_mul (by omega) hj,
    Nat.mul_div_cancel _ (Nat.two_pow_pos _)]

/-- **A call while entries move** covers the bucket of its interval in the smaller array, and
the buckets of all intervals of the larger array inside it: where an interval of the smaller
array starts, one of the larger array starts as well. -/
theorem Shape.cover_of_migrating (hd : d.Shape) (hne : d.isEmpty = false)
    (hm : d.migrating = true) : ∃ small large a b, small ≠ large ∧ a < b ∧ b ≤ 63 ∧
      (d.side small).size = 2 ^ a ∧ (d.side large).size = 2 ^ b ∧ ∀ j < 2 ^ a,
        d.cover (ofRank (j * 2 ^ (64 - a))) =
          ((small, bucketAt a j) ::
            (List.range' (j * 2 ^ (b - a)) (2 ^ (b - a))).map fun i => (large, bucketAt b i),
            ofRank ((j + 1) * 2 ^ (64 - a))) := by
  obtain ⟨small, large, a, b, hother, hab, hb, hsmall, hlarge, hcover⟩ := cover_migrating hd hne hm
  refine ⟨small, large, a, b, hother, hab, hb, hsmall, hlarge, fun j hj => ?_⟩
  have ha : a ≤ 64 := by omega
  have hsplit : 2 ^ (64 - b) * 2 ^ (b - a) = 2 ^ (64 - a) := by
    rw [← Nat.pow_add]
    congr 1
    omega
  have hlargeStart : rank (ofRank (j * 2 ^ (64 - a))) / 2 ^ (64 - b) = j * 2 ^ (b - a) := by
    rw [rank_ofRank_mul ha hj, ← hsplit, Nat.mul_comm (2 ^ (64 - b)), ← Nat.mul_assoc,
      Nat.mul_div_cancel _ (Nat.two_pow_pos _)]
  rw [hcover, hlargeStart, Nat.mul_mod_left, Nat.sub_zero, rank_ofRank_mul ha hj,
    Nat.mul_div_cancel _ (Nat.two_pow_pos _)]

/-- **The calls of a whole scan.** The smaller array in use has a power of two buckets; the
calls go through its intervals, and together they visit what lies in the two arrays. -/
theorem Shape.exists_intervals (hd : d.Shape) (hne : d.isEmpty = false) :
    ∃ n ≤ 63, d.fewestBuckets = 2 ^ n ∧
      (∀ j < 2 ^ n, (d.cover (ofRank (j * 2 ^ (64 - n)))).2 =
        ofRank ((j + 1) * 2 ^ (64 - n))) ∧
      ((List.range (2 ^ n)).flatMap fun j =>
        (d.scan (ofRank (j * 2 ^ (64 - n)))).1).Perm d.toList := by
  cases hm : d.migrating with
  | false =>
    obtain ⟨n, hn, hmain, hcover⟩ := hd.cover_of_settled hne hm
    refine ⟨n, hn, (fewestBuckets_of_settled hm).trans hmain,
      fun j hj => congrArg Prod.snd (hcover j hj), ?_⟩
    have hvisited : ((List.range (2 ^ n)).flatMap fun j =>
        (d.scan (ofRank (j * 2 ^ (64 - n)))).1) =
        (List.range (2 ^ n)).flatMap fun j => d.main.chain (bucketAt n j) := by
      refine List.flatMap_congr fun j hj => ?_
      rw [scan, hcover j (List.mem_range.mp hj)]
      exact List.flatMap_singleton _ _
    rw [hvisited, toList, hd.settled (migrating_eq_false.mp hm), Buckets.toList_unallocated,
      List.append_nil]
    exact d.main.flatMap_chain_bucketAt (by omega) hmain
  | true =>
    obtain ⟨small, large, a, b, hother, hab, hb, hsmall, hlarge, hcover⟩ :=
      hd.cover_of_migrating hne hm
    have hle : (d.side small).size ≤ (d.side large).size := by
      rw [hsmall, hlarge]
      exact Nat.pow_le_pow_right (by omega) hab.le
    refine ⟨a, by omega, (fewestBuckets_of_migrating hm hother hle).trans hsmall,
      fun j hj => congrArg Prod.snd (hcover j hj), ?_⟩
    have hvisited : ((List.range (2 ^ a)).flatMap fun j =>
        (d.scan (ofRank (j * 2 ^ (64 - a)))).1) =
        (List.range (2 ^ a)).flatMap fun j => (d.side small).chain (bucketAt a j) ++
          (List.range' (j * 2 ^ (b - a)) (2 ^ (b - a))).flatMap fun i =>
            (d.side large).chain (bucketAt b i) := by
      refine List.flatMap_congr fun j hj => ?_
      rw [scan, hcover j (List.mem_range.mp hj)]
      dsimp only
      rw [List.flatMap_cons, List.flatMap_map]
      rfl
    -- the rows of the calls are the intervals of the larger array, one after the other
    have hlargeAll : ((List.range (2 ^ a)).flatMap fun j =>
        (List.range' (j * 2 ^ (b - a)) (2 ^ (b - a))).flatMap fun i =>
          (d.side large).chain (bucketAt b i)) =
        (List.range (2 ^ b)).flatMap fun i => (d.side large).chain (bucketAt b i) := by
      rw [← List.flatMap_assoc, flatMap_range'_mul, ← Nat.pow_add, Nat.add_sub_cancel' hab.le]
    rw [hvisited]
    refine ((List.flatMap_append_perm _ _ _).symm.trans ?_).trans (perm_toList_of_ne hother)
    rw [hlargeAll]
    exact ((d.side small).flatMap_chain_bucketAt (by omega) hsmall).append
      ((d.side large).flatMap_chain_bucketAt (by omega) hlarge)

/-! ## The whole scan -/

/-- **A scan comes back to zero** with its last call, of which the smaller array decides, and
by then it has visited each entry once. -/
theorem Shape.scan_once (hd : d.Shape) (hne : d.isEmpty = false) :
    0 < d.fewestBuckets ∧ d.cursorAfter d.fewestBuckets = 0 ∧
      (∀ i, 0 < i → i < d.fewestBuckets → d.cursorAfter i ≠ 0) ∧
      ((List.range d.fewestBuckets).flatMap d.visitedAfter).Perm d.toList := by
  obtain ⟨n, hn, hfewest, hnext, hvisited⟩ := hd.exists_intervals hne
  have hcursor := cursorAfter_eq hnext
  rw [hfewest]
  refine ⟨Nat.two_pow_pos n, ?_, ?_, ?_⟩
  · rw [hcursor _ (le_refl _), ofRank_two_pow (by omega)]
  · intro i hpos hi
    rw [hcursor i hi.le]
    exact ofRank_mul_ne_zero (by omega) hpos hi
  · have hcalls : (List.range (2 ^ n)).flatMap d.visitedAfter =
        (List.range (2 ^ n)).flatMap fun j => (d.scan (ofRank (j * 2 ^ (64 - n)))).1 := by
      refine List.flatMap_congr fun j hj => ?_
      rw [visitedAfter, hcursor j (List.mem_range.mp hj).le]
    rw [hcalls]
    exact hvisited

theorem fewestBuckets_le (d : Dictionary κ ν) : d.fewestBuckets ≤ d.slots := by
  rw [fewestBuckets, slots]
  split <;> omega

end Dictionary

namespace Situation

variable {κ ν σ : Type} (K : Keying κ ν) (g : WordSource σ)

open Dictionary

/-- **A scan of a dictionary at rest visits each entry once.** Take any dictionary with entries
that a new one can come to, its entries on their way to a larger array, to a smaller one or
nowhere. A scan from zero on makes as many calls as the smaller array in use has buckets: the
cursor comes back to zero with the last of them and not before. What the calls visit is the
list of entries in some order, and in this list no handle comes twice. -/
theorem whole_scan_visits_each_entry_once (settings : Settings) (words : σ)
    (earlier : List (Operation κ ν)) :
    let d := ((start settings words).after K g earlier).dictionary
    d.isEmpty = false →
      0 < d.fewestBuckets ∧ d.cursorAfter d.fewestBuckets = 0 ∧
        (∀ calls, 0 < calls → calls < d.fewestBuckets → d.cursorAfter calls ≠ 0) ∧
        ((List.range d.fewestBuckets).flatMap d.visitedAfter).Perm d.toList ∧
        (d.toList.map (·.id)).Nodup ∧
        d.scanAll = (List.range d.fewestBuckets).map d.visitedAfter := by
  intro d hne
  have hd : d.Shape := shape_after K g settings words earlier
  obtain ⟨hpos, hback, hon, hvisited⟩ := hd.scan_once hne
  refine ⟨hpos, hback, hon, hvisited, hd.handles, ?_⟩
  have hroom : d.fewestBuckets - 0 ≤ d.slots + 1 := Nat.le_succ_of_le d.fewestBuckets_le
  have hscan := scanFrom_eq hback hon (d.slots + 1) 0 [] hpos hroom
  rw [Nat.sub_zero, ← List.range_eq_range'] at hscan
  exact hscan

/-- Five numbers, of which the fifth has made the array of four grow. -/
theorem whole_scan_visits_five_on_the_move :
    let d := ((start .standard 0).after (Keying.numbers String) WordSource.splitMix
      [.add 1 "a", .add 2 "b", .add 3 "c", .add 4 "d", .add 5 "e"]).dictionary
    d.isEmpty = false ∧ d.migrating = true ∧ d.fewestBuckets = 4 ∧
      ((List.range 4).flatMap d.visitedAfter).Perm d.toList := by
  intro d
  have hne : d.isEmpty = false := by decide +kernel
  have hfewest : d.fewestBuckets = 4 := by decide +kernel
  obtain ⟨-, -, -, hvisited, -, -⟩ := whole_scan_visits_each_entry_once (Keying.numbers String)
    WordSource.splitMix .standard 0 _ hne
  exact ⟨hne, by decide +kernel, hfewest, hfewest ▸ hvisited⟩

end Situation

end TwinTable
