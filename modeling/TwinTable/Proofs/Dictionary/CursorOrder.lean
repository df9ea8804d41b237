/-
The order in which cursors go through the buckets.

Read with its bits in the opposite order, a cursor is a number, its `rank`, and the buckets
of an array of 2^n are the 2^n equal intervals of ranks: a hash lies in the bucket of the
interval in which its rank lies (`mod_eq_iff_rank_div_eq`). This holds for every n at once,
so halving an interval splits a bucket into the two that have its place in an array twice
as large. Advancing a cursor goes to the start of the next interval, or back to zero from
the last (`advance_eq`).

In these terms one call with a cursor covers the rest of an interval. Against one array it
is the interval of its bucket. Against two it is that of the bucket of the smaller array,
and the intervals of the larger one inside it are visited one after another (`coverLarge_eq`).
-/
import TwinTable.Proofs.Dictionary.Filing
import TwinTable.Dictionary.Cursor

set_option autoImplicit false

namespace TwinTable

namespace Cursor

/-! ## Reversing bits -/

theorem testBit_and_one (v : UInt64) (i : Nat) :
    (v &&& 1).toNat.testBit i = (decide (i = 0) && v.toNat.testBit 0) := by
  rw [UInt64.toNat_and, Nat.testBit_and]
  cases i with
  | zero => simp
  | succ i =>
    have hone : (1 : UInt64).toNat.testBit (i + 1) = false := by
      rw [Nat.testBit_succ]
      simp
    rw [hone, Bool.and_false]
    simp

theorem testBit_shiftRight_one (v : UInt64) (i : Nat) :
    (v >>> 1).toNat.testBit i = v.toNat.testBit (i + 1) := by
  rw [UInt64.toNat_shiftRight]
  simp [Nat.testBit_shiftRight, Nat.add_comm]

theorem testBit_shiftLeft_one (v : UInt64) (i : Nat) :
    (v <<< 1).toNat.testBit i =
      (decide (i < 64) && (decide (1 ≤ i) && v.toNat.testBit (i - 1))) := by
  rw [UInt64.toNat_shiftLeft]
  exact (Nat.testBit_mod_two_pow _ _ _).trans (congrArg _ (Nat.testBit_shiftLeft _))

theorem testBit_of_ge (v : UInt64) {i : Nat} (h : 64 ≤ i) : v.toNat.testBit i = false :=
  Nat.testBit_lt_two_pow (Nat.lt_of_lt_of_le v.toNat_lt (Nat.pow_le_pow_right (by omega) h))

/-- The bits that were moved stand in the opposite order below those of the accumulator. -/
theorem testBit_reverseInto : ∀ (n : Nat) (v acc : UInt64) (i : Nat), i < 64 →
    (reverseInto n v acc).toNat.testBit i =
      if i < n then v.toNat.testBit (n - 1 - i) else acc.toNat.testBit (i - n) := by
  intro n
  -- induction on the bits that are left to be moved, each of which shifts the accumulator
  induction n with
  | zero => intro v acc i _; rfl
  | succ n ih =>
    intro v acc i hi
    rw [reverseInto, ih _ _ i hi]
    by_cases hin : i < n
    · rw [if_pos hin, if_pos (by omega), testBit_shiftRight_one]
      congr 1
      omega
    · rw [if_neg hin, UInt64.toNat_or, Nat.testBit_or, testBit_shiftLeft_one, testBit_and_one]
      -- bit n is the one that is moved now; those above it were in the accumulator
      by_cases heq : i = n
      · subst heq
        simp
      · rw [if_neg (by omega)]
        have h1 : 1 ≤ i - n := by omega
        have h2 : i - n < 64 := by omega
        have h3 : ¬ i - n = 0 := by omega
        have h4 : i - n - 1 = i - (n + 1) := by omega
        simp [h1, h2, h3, h4]

theorem testBit_reverse (v : UInt64) {i : Nat} (hi : i < 64) :
    (reverse v).toNat.testBit i = v.toNat.testBit (63 - i) := by
  rw [reverse, testBit_reverseInto 64 v 0 i hi, if_pos hi]

theorem reverse_reverse (v : UInt64) : reverse (reverse v) = v := by
  refine UInt64.toNat_inj.mp (Nat.eq_of_testBit_eq fun i => ?_)
  by_cases hi : i < 64
  · rw [testBit_reverse _ hi, testBit_reverse v (by omega)]
    congr 1
    omega
  · rw [testBit_of_ge _ (by omega), testBit_of_ge _ (by omega)]

/-! ## Ranks -/

/-- A cursor, or a hash, read with its bits in the opposite order. -/
def rank (v : UInt64) : Nat := (reverse v).toNat

/-- The cursor of a rank; ranks beyond the last wrap around. -/
def ofRank (x : Nat) : UInt64 := reverse x.toUInt64

theorem rank_lt (v : UInt64) : rank v < 2 ^ 64 := (reverse v).toNat_lt

@[simp] theorem ofRank_rank (v : UInt64) : ofRank (rank v) = v := by
  rw [ofRank, rank]
  have h : (reverse v).toNat.toUInt64 = reverse v := by simp
  rw [h, reverse_reverse]

theorem rank_ofRank (x : Nat) : rank (ofRank x) = x % 2 ^ 64 := by
  rw [rank, ofRank, reverse_reverse]
  simp

@[simp] theorem rank_zero : rank 0 = 0 := by decide +kernel

theorem rank_injective : Function.Injective rank := by
  intro u v h
  rw [← ofRank_rank u, h, ofRank_rank]

/-! ## Buckets as intervals -/

/-- The bits of a mask are those below the exponent of the size. -/
theorem testBit_mask {mask : UInt64} {n : Nat} (h : mask.toNat = 2 ^ n - 1) (i : Nat) :
    mask.toNat.testBit i = decide (i < n) := by
  rw [h, Nat.testBit_two_pow_sub_one]

theorem testBit_not_mask {mask : UInt64} {n : Nat} (h : mask.toNat = 2 ^ n - 1) {i : Nat}
    (hi : i < 64) : (~~~mask).toNat.testBit i = decide (n ≤ i) := by
  have hnot : (~~~mask).toNat = 2 ^ 64 - (mask.toNat + 1) := by
    rw [UInt64.toNat_not, UInt64.size]
    omega
  rw [hnot, Nat.testBit_two_pow_sub_succ mask.toNat_lt, testBit_mask h, decide_eq_true hi,
    Bool.true_and, ← decide_not]
  exact decide_eq_decide.mpr Nat.not_lt

theorem toNat_and_mask {mask : UInt64} {n : Nat} (h : mask.toNat = 2 ^ n - 1) (v : UInt64) :
    (v &&& mask).toNat = v.toNat % 2 ^ n := by
  rw [UInt64.toNat_and, h, Nat.and_two_pow_sub_one_eq_mod]

theorem testBit_rank (v : UInt64) {i : Nat} (hi : i < 64) :
    (rank v).testBit i = v.toNat.testBit (63 - i) :=
  testBit_reverse v hi

/-- **Two hashes share a bucket** of an array of 2^n if their ranks lie in one interval. -/
theorem mod_eq_iff_rank_div_eq {n : Nat} (hn : n ≤ 64) (u v : UInt64) :
    u.toNat % 2 ^ n = v.toNat % 2 ^ n ↔
      rank u / 2 ^ (64 - n) = rank v / 2 ^ (64 - n) := by
  -- bit j of the number of the interval is bit n - 1 - j of the number of the bucket
  have hbit : ∀ w : UInt64, ∀ j, j < n →
      (rank w / 2 ^ (64 - n)).testBit j = w.toNat.testBit (n - 1 - j) := by
    intro w j hj
    rw [Nat.testBit_div_two_pow, testBit_rank _ (by omega)]
    congr 1
    omega
  constructor
  · intro h
    refine Nat.eq_of_testBit_eq fun j => ?_
    by_cases hj : j < n
    · have hmod := congrArg (Nat.testBit · (n - 1 - j)) h
      simp only [Nat.testBit_mod_two_pow] at hmod
      rw [decide_eq_true (by omega), Bool.true_and, Bool.true_and] at hmod
      rw [hbit u j hj, hbit v j hj, hmod]
    · have hhigh : ∀ w : UInt64, (rank w / 2 ^ (64 - n)).testBit j = false := by
        intro w
        rw [Nat.testBit_div_two_pow, rank]
        exact testBit_of_ge _ (by omega)
      rw [hhigh, hhigh]
  · intro h
    refine Nat.eq_of_testBit_eq fun i => ?_
    rw [Nat.testBit_mod_two_pow, Nat.testBit_mod_two_pow]
    by_cases hi : i < n
    · have hback : n - 1 - (n - 1 - i) = i := by omega
      have hdiv := congrArg (Nat.testBit · (n - 1 - i)) h
      rw [hbit u _ (by omega), hbit v _ (by omega), hback] at hdiv
      rw [hdiv]
    · rw [decide_eq_false hi, Bool.false_and, Bool.false_and]

/-- The rank of a cursor without the bits below the interval, and with all of them. -/
theorem rank_or_not_mask {mask : UInt64} {n : Nat} (hn : n ≤ 64) (h : mask.toNat = 2 ^ n - 1)
    (v : UInt64) :
    rank (v ||| ~~~mask) = 2 ^ (64 - n) * (rank v / 2 ^ (64 - n)) + (2 ^ (64 - n) - 1) := by
  refine Nat.eq_of_testBit_eq fun i => ?_
  have hlow : 2 ^ (64 - n) - 1 < 2 ^ (64 - n) := Nat.sub_one_lt (Nat.two_pow_pos _).ne'
  rw [Nat.testBit_two_pow_mul_add _ hlow, Nat.testBit_two_pow_sub_one]
  by_cases hi : i < 64
  · rw [testBit_rank _ hi, UInt64.toNat_or, Nat.testBit_or, Nat.testBit_div_two_pow]
    rw [testBit_not_mask h (by omega)]
    by_cases hin : i < 64 - n
    · rw [if_pos hin, decide_eq_true (by omega : n ≤ 63 - i), Bool.or_true, decide_eq_true hin]
    · have hback : i - (64 - n) + (64 - n) = i := by omega
      rw [if_neg hin, decide_eq_false (by omega : ¬ n ≤ 63 - i), Bool.or_false, hback,
        testBit_rank v hi]
  · rw [rank, testBit_of_ge _ (by omega), if_neg (by omega), Nat.testBit_div_two_pow, rank]
    exact (testBit_of_ge _ (by omega)).symm

/-- **Advancing** goes to the start of the next interval. -/
theorem advance_eq {mask : UInt64} {n : Nat} (hn : n ≤ 64) (h : mask.toNat = 2 ^ n - 1)
    (v : UInt64) :
    advance v mask = ofRank ((rank v / 2 ^ (64 - n) + 1) * 2 ^ (64 - n)) := by
  have hpos : 0 < 2 ^ (64 - n) := Nat.two_pow_pos _
  have hrank := rank_or_not_mask hn h v
  refine rank_injective ?_
  rw [advance, rank, reverse_reverse, rank_ofRank, UInt64.toNat_add]
  change (rank (v ||| ~~~mask) + 1) % 2 ^ 64 = _
  rw [hrank, Nat.add_assoc, Nat.sub_add_cancel hpos]
  congr 1
  ring

/-- The bucket of the j-th interval of an array of 2^n. -/
def bucketAt (n j : Nat) : Nat := (ofRank (j * 2 ^ (64 - n))).toNat

theorem rank_div_lt {n : Nat} (hn : n ≤ 64) (v : UInt64) : rank v / 2 ^ (64 - n) < 2 ^ n := by
  refine Nat.div_lt_of_lt_mul ?_
  rw [← Nat.pow_add, Nat.sub_add_cancel hn]
  exact rank_lt v

/-- The start of an interval, if it is one of the array. -/
theorem rank_ofRank_mul {n j : Nat} (hn : n ≤ 64) (hj : j < 2 ^ n) :
    rank (ofRank (j * 2 ^ (64 - n))) = j * 2 ^ (64 - n) := by
  have hlt : j * 2 ^ (64 - n) < 2 ^ n * 2 ^ (64 - n) :=
    Nat.mul_lt_mul_of_pos_right hj (Nat.two_pow_pos _)
  rw [← Nat.pow_add, Nat.add_sub_cancel' hn] at hlt
  rw [rank_ofRank, Nat.mod_eq_of_lt hlt]

theorem rank_ofRank_mul_div {n : Nat} (hn : n ≤ 64) (j : Nat) :
    rank (ofRank (j * 2 ^ (64 - n))) / 2 ^ (64 - n) = j % 2 ^ n := by
  have hsize : 2 ^ 64 = 2 ^ n * 2 ^ (64 - n) := by
    rw [← Nat.pow_add, Nat.add_sub_cancel' hn]
  rw [rank_ofRank, hsize, Nat.mul_mod_mul_right, Nat.mul_div_cancel _ (Nat.two_pow_pos _)]

theorem bucketAt_lt {n j : Nat} (hn : n ≤ 64) (hj : j < 2 ^ n) : bucketAt n j < 2 ^ n := by
  refine Nat.lt_pow_two_of_testBit _ ?_
  intro i hi
  rw [bucketAt]
  by_cases h64 : i < 64
  · have hrank := testBit_rank (ofRank (j * 2 ^ (64 - n))) (i := 63 - i) (by omega)
    have hback : 63 - (63 - i) = i := by omega
    -- a high bit of the bucket is a low bit of the rank, and ranks of intervals end in zeros
    have hzero : (j * 2 ^ (64 - n)).testBit (63 - i) = false := by
      rw [Nat.mul_comm, Nat.testBit_two_pow_mul, decide_eq_false (by omega), Bool.false_and]
    rw [hback, rank_ofRank_mul hn hj] at hrank
    exact hrank.symm.trans hzero
  · exact testBit_of_ge _ (by omega)

/-- The bucket of a hash is that of its interval. -/
theorem mod_eq_bucketAt {n : Nat} (hn : n ≤ 64) (v : UInt64) :
    v.toNat % 2 ^ n = bucketAt n (rank v / 2 ^ (64 - n)) := by
  have hj := rank_div_lt hn v
  have hsame := (mod_eq_iff_rank_div_eq hn v (ofRank (rank v / 2 ^ (64 - n) * 2 ^ (64 - n)))).mpr
    (by rw [rank_ofRank_mul hn hj, Nat.mul_div_cancel _ (Nat.two_pow_pos _)])
  rw [hsame]
  exact Nat.mod_eq_of_lt (bucketAt_lt hn hj)

/-! ## One call -/

/-- The bits that the larger array has more are all zero at the start of an interval of the
smaller one. -/
theorem and_xor_eq_zero_iff {small large : UInt64} {a b : Nat} (hab : a ≤ b) (hb : b ≤ 64)
    (hs : small.toNat = 2 ^ a - 1) (hl : large.toNat = 2 ^ b - 1) (v : UInt64) :
    v &&& (small ^^^ large) = 0 ↔ rank v / 2 ^ (64 - b) % 2 ^ (b - a) = 0 := by
  have hmask : ∀ i, (v &&& (small ^^^ large)).toNat.testBit i =
      (v.toNat.testBit i && (decide (i < a) ^^ decide (i < b))) := by
    intro i
    rw [UInt64.toNat_and, Nat.testBit_and, UInt64.toNat_xor, Nat.testBit_xor, testBit_mask hs,
      testBit_mask hl]
  have hrank : ∀ j, (rank v / 2 ^ (64 - b) % 2 ^ (b - a)).testBit j =
      (decide (j < b - a) && (rank v).testBit (j + (64 - b))) := by
    intro j
    rw [Nat.testBit_mod_two_pow, Nat.testBit_div_two_pow]
  -- the two masks differ in the bits from a up to b, which are the low ones of the quotient
  constructor
  · intro h
    refine Nat.eq_of_testBit_eq fun j => ?_
    rw [hrank, Nat.zero_testBit]
    by_cases hj : j < b - a
    · have hbit := hmask (b - 1 - j)
      rw [h, decide_eq_false (by omega), decide_eq_true (by omega), Bool.false_xor,
        Bool.and_true] at hbit
      have hback : 63 - (j + (64 - b)) = b - 1 - j := by omega
      rw [testBit_rank v (by omega), hback, ← hbit, UInt64.toNat_zero, Nat.zero_testBit,
        Bool.and_false]
    · rw [decide_eq_false hj, Bool.false_and]
  · intro h
    refine UInt64.toNat_inj.mp (Nat.eq_of_testBit_eq fun i => ?_)
    rw [hmask, UInt64.toNat_zero, Nat.zero_testBit]
    by_cases hi : a ≤ i ∧ i < b
    · have hbit := hrank (b - 1 - i)
      have hback : 63 - (b - 1 - i + (64 - b)) = i := by omega
      rw [h, decide_eq_true (by omega), Bool.true_and, testBit_rank v (by omega), hback,
        Nat.zero_testBit] at hbit
      rw [← hbit, Bool.false_and]
    · have hsame : decide (i < a) = decide (i < b) := decide_eq_decide.mpr (by omega)
      rw [hsame, Bool.xor_self, Bool.and_false]

/-- **The buckets of the larger array** that one call covers are those of its intervals from
the cursor on, to the end of the interval of the smaller array; and the next cursor is the
one that the smaller array alone would give. -/
theorem coverLarge_eq (side : Side) {small large : UInt64} {a b : Nat} (hab : a ≤ b)
    (hb : b ≤ 64) (hs : small.toNat = 2 ^ a - 1) (hl : large.toNat = 2 ^ b - 1) :
    ∀ (room : Nat) (before : List Bucket) (v : UInt64),
      2 ^ (b - a) - rank v / 2 ^ (64 - b) % 2 ^ (b - a) ≤ room →
      coverLarge side small large room before v =
        (before.reverse ++
          (List.range' (rank v / 2 ^ (64 - b))
            (2 ^ (b - a) - rank v / 2 ^ (64 - b) % 2 ^ (b - a))).map
              fun j => (side, bucketAt b j),
          ofRank ((rank v / 2 ^ (64 - a) + 1) * 2 ^ (64 - a))) := by
  have hB : 0 < 2 ^ (b - a) := Nat.two_pow_pos _
  have hsplit : 2 ^ (64 - b) * 2 ^ (b - a) = 2 ^ (64 - a) := by
    rw [← Nat.pow_add]
    congr 1
    omega
  have hdvd : 2 ^ b = 2 ^ a * 2 ^ (b - a) := by
    rw [← Nat.pow_add]
    congr 1
    omega
  intro room
  -- induction on the room for buckets, of which the condition says that there is enough
  induction room with
  | zero =>
    intro before v hroom
    have hlt := Nat.mod_lt (rank v / 2 ^ (64 - b)) hB
    omega
  | succ room ih =>
    intro before v hroom
    generalize hq : rank v / 2 ^ (64 - b) = q at hroom ⊢
    have hqlt : q < 2 ^ b := hq ▸ rank_div_lt hb v
    have hqB := Nat.mod_lt q hB
    have hsmall : rank v / 2 ^ (64 - a) = q / 2 ^ (b - a) := by
      rw [← hsplit, ← Nat.div_div_eq_div_mul, hq]
    have hbucket : (v &&& large).toNat = bucketAt b q := by
      rw [toNat_and_mask hl, mod_eq_bucketAt hb, hq]
    have hstop : ofRank ((q + 1) * 2 ^ (64 - b)) &&& (small ^^^ large) = 0 ↔
        (q + 1) % 2 ^ (b - a) = 0 := by
      rw [and_xor_eq_zero_iff hab hb hs hl, rank_ofRank_mul_div hb,
        Nat.mod_mod_of_dvd _ ⟨2 ^ a, hdvd.trans (Nat.mul_comm _ _)⟩]
    have hdiv := Nat.div_add_mod q (2 ^ (b - a))
    have hmod := Nat.mod_add_mod q (2 ^ (b - a)) 1
    rw [coverLarge, hbucket, advance_eq hb hl, hq]
    rcases Nat.lt_or_ge (q % 2 ^ (b - a) + 1) (2 ^ (b - a)) with hmore | hlast
    · -- not at the end yet: one bucket, and the cursor stays inside the smaller interval
      have hnext : (q + 1) % 2 ^ (b - a) = q % 2 ^ (b - a) + 1 := by
        rw [← hmod, Nat.mod_eq_of_lt hmore]
      have hinside : q + 1 < 2 ^ b := by
        by_contra hge
        have hfull : q + 1 = 2 ^ a * 2 ^ (b - a) := by omega
        rw [hfull, Nat.mul_mod_left] at hnext
        omega
      have hquot : (q + 1) / 2 ^ (b - a) = q / 2 ^ (b - a) := by
        have hsum : q + 1 = 2 ^ (b - a) * (q / 2 ^ (b - a)) + (q % 2 ^ (b - a) + 1) := by omega
        rw [hsum, Nat.mul_add_div hB, Nat.div_eq_of_lt hmore, Nat.add_zero]
      have hrank : rank (ofRank ((q + 1) * 2 ^ (64 - b))) / 2 ^ (64 - b) = q + 1 := by
        rw [rank_ofRank_mul_div hb, Nat.mod_eq_of_lt hinside]
      have hrankSmall : rank (ofRank ((q + 1) * 2 ^ (64 - b))) / 2 ^ (64 - a) =
          rank v / 2 ^ (64 - a) := by
        rw [hsmall, ← hsplit, ← Nat.div_div_eq_div_mul, hrank, hquot]
      have hcount : 2 ^ (b - a) - q % 2 ^ (b - a) = 2 ^ (b - a) - (q + 1) % 2 ^ (b - a) + 1 := by
        omega
      rw [if_neg (fun h => by rw [hstop, hnext] at h; omega), ih _ _ (by rw [hrank]; omega),
        hrank, hrankSmall, hcount, List.range'_succ]
      simp
    · -- the last interval of the larger array ends where that of the smaller one does
      have hend : (q + 1) % 2 ^ (b - a) = 0 := by
        have hfull : q % 2 ^ (b - a) + 1 = 2 ^ (b - a) := by omega
        rw [← hmod, hfull, Nat.mod_self]
      have hone : 2 ^ (b - a) - q % 2 ^ (b - a) = 1 := by omega
      have hstart : (q / 2 ^ (b - a) + 1) * 2 ^ (b - a) = q + 1 := by
        rw [Nat.add_mul, Nat.one_mul, Nat.mul_comm]
        omega
      rw [if_pos (hstop.mpr hend), hone, hsmall, List.range'_one, List.map_singleton,
        List.reverse_cons, ← hsplit, Nat.mul_comm (2 ^ (64 - b)), ← Nat.mul_assoc, hstart]

/-- A call against two arrays covers a bucket of the smaller one, and those of the larger one
inside its interval, from the cursor on. -/
theorem cover_double (small large : Side) {smallMask largeMask : UInt64} {a b : Nat}
    (hab : a ≤ b) (hb : b ≤ 64) (hs : smallMask.toNat = 2 ^ a - 1)
    (hl : largeMask.toNat = 2 ^ b - 1) (v : UInt64) :
    (Layout.double small smallMask large largeMask).cover v =
      ((small, bucketAt a (rank v / 2 ^ (64 - a))) ::
          (List.range' (rank v / 2 ^ (64 - b))
            (2 ^ (b - a) - rank v / 2 ^ (64 - b) % 2 ^ (b - a))).map
              fun j => (large, bucketAt b j),
        ofRank ((rank v / 2 ^ (64 - a) + 1) * 2 ^ (64 - a))) := by
  have hroom : 2 ^ (b - a) - rank v / 2 ^ (64 - b) % 2 ^ (b - a) ≤ largeMask.toNat + 1 := by
    have hpow : 2 ^ (b - a) ≤ 2 ^ b := Nat.pow_le_pow_right (by omega) (Nat.sub_le b a)
    omega
  rw [Layout.cover, coverLarge_eq large hab hb hs hl _ _ _ hroom, toNat_and_mask hs,
    mod_eq_bucketAt (by omega)]
  rfl

end Cursor

namespace Dictionary

open Cursor

variable {κ ν : Type} {d : Dictionary κ ν}

/-! ## One call on a dictionary -/

/-- While nothing moves, one call covers a bucket of the main array. -/
theorem cover_settled {n : Nat} (hne : d.isEmpty = false) (hm : d.migrating = false)
    (hn : n ≤ 63) (hs : d.main.size = 2 ^ n) (v : UInt64) :
    d.cover v = ([(.main, bucketAt n (rank v / 2 ^ (64 - n)))],
      ofRank ((rank v / 2 ^ (64 - n) + 1) * 2 ^ (64 - n))) := by
  have hmask := Buckets.toNat_mask hn hs
  rw [cover, layout?, if_neg (by simp [hne]), if_pos (by simp [hm])]
  change ([(Side.main, (v &&& d.main.mask).toNat)], advance v d.main.mask) = _
  rw [toNat_and_mask hmask, mod_eq_bucketAt (by omega), advance_eq (by omega) hmask]

/-- While entries move, one call covers a bucket of the smaller array and those of the larger
one inside its interval, from the cursor on. -/
theorem cover_migrating (hd : d.Shape) (hne : d.isEmpty = false) (hm : d.migrating = true) :
    ∃ small large a b, small ≠ large ∧ a < b ∧ b ≤ 63 ∧ (d.side small).size = 2 ^ a ∧
      (d.side large).size = 2 ^ b ∧ ∀ v, d.cover v =
        ((small, bucketAt a (rank v / 2 ^ (64 - a))) ::
            (List.range' (rank v / 2 ^ (64 - b))
              (2 ^ (b - a) - rank v / 2 ^ (64 - b) % 2 ^ (b - a))).map
                fun j => (large, bucketAt b j),
          ofRank ((rank v / 2 ^ (64 - a) + 1) * 2 ^ (64 - a))) := by
  obtain ⟨i, hf⟩ := migrating_eq_true.mp hm
  obtain ⟨hi, ht, hother⟩ := hd.moving i hf
  obtain ⟨x, -, hx63, hx⟩ := hd.main.exists_size (by omega)
  obtain ⟨y, -, hy63, hy⟩ := hd.target.exists_size ht
  have hmain := Buckets.toNat_mask hx63 hx
  have htarget := Buckets.toNat_mask hy63 hy
  rw [hx, hy] at hother
  have hcover : ∀ v, d.cover v = (if d.main.size ≤ d.target.size then
      Layout.double .main d.main.mask .target d.target.mask
    else Layout.double .target d.target.mask .main d.main.mask).cover v := by
    intro v
    rw [cover, layout?, if_neg (by simp [hne]), if_neg (by simp [hm])]
    split_ifs <;> rfl
  -- which array is the smaller one is a matter of growing or shrinking
  rcases Nat.lt_or_ge x y with hxy | hxy
  · have hle : d.main.size ≤ d.target.size := by
      rw [hx, hy]
      exact Nat.pow_le_pow_right (by omega) hxy.le
    refine ⟨.main, .target, x, y, by decide, hxy, hy63, hx, hy, fun v => ?_⟩
    rw [hcover, if_pos hle, cover_double _ _ hxy.le (by omega) hmain htarget]
  · have hyx : y < x := Nat.lt_of_le_of_ne hxy fun h => hother (by rw [h])
    have hlt : ¬ d.main.size ≤ d.target.size := by
      rw [hx, hy, Nat.not_le]
      exact Nat.pow_lt_pow_right (by omega) hyx
    refine ⟨.target, .main, y, x, by decide, hyx, hx63, hy, hx, fun v => ?_⟩
    rw [hcover, if_neg hlt, cover_double _ _ hxy (by omega) htarget hmain]

end Dictionary

end TwinTable
