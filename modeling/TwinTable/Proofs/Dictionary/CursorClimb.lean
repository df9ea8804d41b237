/-
From any cursor a scan of a dictionary at rest comes to zero.

`WholeScan` follows a scan from zero on. A caller may begin anywhere, with a cursor that was
made for another size or that no call ever returned, and with any bits above those of the
masks. Such a cursor still has a rank, and the interval that its rank lies in, and the next
cursor is the start of the next interval (`Shape.exists_next`). So ranks go up, call by call,
until the cursor is zero (`Shape.rank_lt_scan`), and there are no more calls than intervals
from there on (`Shape.exists_last`). A dictionary without entries is done with in one call.
-/
import TwinTable.Proofs.Dictionary.WholeScan

set_option autoImplicit false

namespace TwinTable

namespace Dictionary

open Cursor

variable {κ ν : Type} {d : Dictionary κ ν}

/-! ## Calls from a cursor on -/

/-- The cursor after so many calls. -/
def cursorFrom (d : Dictionary κ ν) (v : UInt64) : (calls : Nat) → UInt64
  | 0 => v
  | calls + 1 => (d.scan (d.cursorFrom v calls)).2

/-- What so many calls visit. -/
def visitedFrom (d : Dictionary κ ν) (v : UInt64) (calls : Nat) : List (Binding κ ν) :=
  (List.range calls).flatMap fun i => (d.scan (d.cursorFrom v i)).1

/-- The calls that a scan takes: one for each bucket of the smaller array in use, or one alone
if there is nothing to visit. -/
def scanCalls (d : Dictionary κ ν) : Nat := if d.isEmpty then 1 else d.fewestBuckets

theorem cursorFrom_add (d : Dictionary κ ν) (v : UInt64) (i : Nat) : ∀ j : Nat,
    d.cursorFrom v (i + j) = d.cursorFrom (d.cursorFrom v i) j := by
  intro j
  induction j with
  | zero => rfl
  | succ j ih => rw [← Nat.add_assoc, cursorFrom, ih, cursorFrom]

theorem visitedFrom_add (d : Dictionary κ ν) (v : UInt64) (i j : Nat) :
    d.visitedFrom v (i + j) = d.visitedFrom v i ++ d.visitedFrom (d.cursorFrom v i) j := by
  rw [visitedFrom, List.range_add, List.flatMap_append, List.flatMap_map]
  simp only [cursorFrom_add]
  rfl

theorem visitedFrom_one (d : Dictionary κ ν) (v : UInt64) :
    d.visitedFrom v 1 = (d.scan v).1 :=
  List.flatMap_singleton _ _

theorem cursorFrom_zero (d : Dictionary κ ν) : d.cursorFrom 0 = d.cursorAfter := by
  funext calls
  induction calls with
  | zero => rfl
  | succ calls ih => rw [cursorFrom, cursorAfter, ih]

/-! ## Ranks go up -/

/-- **The next cursor** is where the next interval of the smaller array in use starts. -/
theorem Shape.exists_next (hd : d.Shape) (hne : d.isEmpty = false) :
    ∃ n ≤ 63, d.fewestBuckets = 2 ^ n ∧
      ∀ v, (d.scan v).2 = ofRank ((rank v / 2 ^ (64 - n) + 1) * 2 ^ (64 - n)) := by
  cases hm : d.migrating with
  | false =>
    obtain ⟨n, hn, hmain, -⟩ := hd.cover_of_settled hne hm
    refine ⟨n, hn, (fewestBuckets_of_settled hm).trans hmain, fun v => ?_⟩
    rw [scan, cover_settled hne hm hn hmain]
  | true =>
    obtain ⟨small, large, a, b, hother, hab, hb, hsmall, hlarge, hcover⟩ :=
      cover_migrating hd hne hm
    have hle : (d.side small).size ≤ (d.side large).size := by
      rw [hsmall, hlarge]
      exact Nat.pow_le_pow_right (by omega) hab.le
    refine ⟨a, by omega, (fewestBuckets_of_migrating hm hother hle).trans hsmall, fun v => ?_⟩
    rw [scan, hcover]

/-- Nothing is visited where there is nothing, and the scan is over. -/
theorem scan_of_isEmpty (h : d.isEmpty = true) (v : UInt64) : d.scan v = ([], 0) := by
  rw [scan, cover, layout?, if_pos h]
  rfl

/-- **A call ends the scan or goes up.** -/
theorem Shape.rank_lt_scan (hd : d.Shape) (v : UInt64) :
    (d.scan v).2 = 0 ∨ rank v < rank (d.scan v).2 := by
  cases hne : d.isEmpty with
  | true => exact .inl (congrArg Prod.snd (scan_of_isEmpty hne v))
  | false =>
    obtain ⟨n, hn, -, hnext⟩ := hd.exists_next hne
    have hj := rank_div_lt (n := n) (by omega) v
    rw [hnext]
    rcases Nat.lt_or_ge (rank v / 2 ^ (64 - n) + 1) (2 ^ n) with hlt | hge
    · right
      rw [rank_ofRank_mul (by omega) hlt, Nat.mul_comm]
      exact Nat.lt_mul_div_succ _ (Nat.two_pow_pos _)
    · -- the cursor lies in the last interval, behind which comes the first again
      left
      rw [show rank v / 2 ^ (64 - n) + 1 = 2 ^ n by omega]
      exact ofRank_two_pow (by omega)

/-- So do any number of calls that do not come to zero before. -/
theorem Shape.rank_lt_cursorFrom (hd : d.Shape) (v : UInt64) : ∀ calls, 1 ≤ calls →
    (∀ i, 1 ≤ i → i < calls → d.cursorFrom v i ≠ 0) →
    d.cursorFrom v calls = 0 ∨ rank v < rank (d.cursorFrom v calls) := by
  intro calls
  -- induction on the calls; each starts where the one before went up to
  induction calls with
  | zero => exact fun h => absurd h (by omega)
  | succ calls ih =>
    intro _ hon
    rcases Nat.eq_zero_or_pos calls with rfl | hpos
    · exact hd.rank_lt_scan v
    · have hbefore := ih hpos fun i hi hlt => hon i hi (by omega)
      have hup := hbefore.resolve_left (hon calls hpos (Nat.lt_succ_self _))
      exact (hd.rank_lt_scan _).imp_right hup.trans

/-! ## The last call -/

/-- **A scan comes to zero from any cursor**, with no more calls than there are intervals from
there on. -/
theorem Shape.exists_last (hd : d.Shape) (v : UInt64) :
    ∃ last, 1 ≤ last ∧ last ≤ d.scanCalls ∧ d.cursorFrom v last = 0 := by
  cases hne : d.isEmpty with
  | true =>
    refine ⟨1, le_refl _, ?_, congrArg Prod.snd (scan_of_isEmpty hne v)⟩
    rw [scanCalls, if_pos hne]
  | false =>
    obtain ⟨n, hn, hfewest, hnext⟩ := hd.exists_next hne
    have hj := rank_div_lt (n := n) (by omega) v
    -- call by call, the start of one more interval
    have hclimb : ∀ i, 1 ≤ i → rank v / 2 ^ (64 - n) + i ≤ 2 ^ n →
        d.cursorFrom v i = ofRank ((rank v / 2 ^ (64 - n) + i) * 2 ^ (64 - n)) := by
      intro i
      induction i with
      | zero => exact fun h => absurd h (by omega)
      | succ i ih =>
        intro _ hi
        rcases Nat.eq_zero_or_pos i with rfl | hpos
        · exact hnext v
        · rw [cursorFrom, ih hpos (by omega), hnext, rank_ofRank_mul_div (by omega),
            Nat.mod_eq_of_lt (by omega)]
          rfl
    refine ⟨2 ^ n - rank v / 2 ^ (64 - n), by omega, ?_, ?_⟩
    · rw [scanCalls, if_neg (by simp [hne]), hfewest]
      exact Nat.sub_le _ _
    · rw [hclimb _ (by omega) (by omega), Nat.add_sub_cancel' hj.le, ofRank_two_pow (by omega)]

/-- From zero on a scan takes just as many calls as there are, and visits each entry once. -/
theorem Shape.scan_calls (hd : d.Shape) :
    1 ≤ d.scanCalls ∧ d.cursorFrom 0 d.scanCalls = 0 ∧
      (∀ i, 1 ≤ i → i < d.scanCalls → d.cursorFrom 0 i ≠ 0) ∧
      (d.visitedFrom 0 d.scanCalls).Perm d.toList := by
  cases hne : d.isEmpty with
  | true =>
    have hnil : d.toList = [] := by
      refine List.eq_nil_of_length_eq_zero ?_
      rw [← hd.size_eq]
      exact of_decide_eq_true hne
    rw [scanCalls, if_pos hne, hnil, visitedFrom_one, scan_of_isEmpty hne]
    exact ⟨le_refl _, congrArg Prod.snd (scan_of_isEmpty hne 0), fun i hi hlt => by omega, .refl _⟩
  | false =>
    have honce := hd.scan_once hne
    rwa [scanCalls, if_neg (by simp [hne]), visitedFrom, cursorFrom_zero]

end Dictionary

end TwinTable
