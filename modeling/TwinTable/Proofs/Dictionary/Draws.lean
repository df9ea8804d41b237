/-
A draw that may miss hits in the end.

Picking an entry draws bucket numbers until there is a chain under one of them. Some bucket
that holds entries has a number in the range that is drawn from
(`Dictionary.Shape.exists_number`): what has moved is empty, so the range may begin at the
frontier. So there is something to hit, and whether the draws from the state at hand come to
it in time is a matter of the source (`Dictionary.FirstHit`).

SplitMix does, from every state. Its states step through all words, since the step is odd, and
each of the steps that scramble a state can be undone, so that the words are all words too.
-/
import TwinTable.Proofs.Dictionary.History
import TwinTable.Proofs.Dictionary.Members
import TwinTable.Proofs.Hash.Mixing

set_option autoImplicit false

namespace TwinTable

/-! ## The words of a source -/

namespace WordSource

variable {σ : Type}

/-- The state after so many draws. -/
def skip (g : WordSource σ) : Nat → σ → σ
  | 0, s => s
  | n + 1, s => skip g n (g.draw s).2

/-- The last of the draws comes after all others. -/
theorem skip_succ (g : WordSource σ) (n : Nat) : ∀ s : σ,
    g.skip (n + 1) s = (g.draw (g.skip n s)).2 := by
  induction n with
  | zero => exact fun _ => rfl
  | succ n ih => exact fun s => ih (g.draw s).2

/-- What SplitMix makes of a state. -/
def scrambled (s : UInt64) : UInt64 :=
  let z := (s ^^^ s >>> 30) * 0xbf58476d1ce4e5b9
  let z := (z ^^^ z >>> 27) * 0x94d049bb133111eb
  z ^^^ z >>> 31

/-- The step of the state of SplitMix. -/
def stride : UInt64 := 0x9e3779b97f4a7c15

theorem draw_splitMix (s : UInt64) :
    splitMix.draw s = (scrambled (s + stride), s + stride) := rfl

theorem scrambled_bijective : Function.Bijective scrambled := by
  have h₃ := xor_shiftRight_injective (k := 31) (by decide)
  have h₂ : Function.Injective fun z : UInt64 => z * 0x94d049bb133111eb :=
    mul_right_injective_of_inverse (show _ * 0x319642b2d24d8ec3 = 1 by decide)
  have h₁ : Function.Injective fun z : UInt64 => z * 0xbf58476d1ce4e5b9 :=
    mul_right_injective_of_inverse (show _ * 0x96de1b173f119089 = 1 by decide)
  have hinjective : Function.Injective scrambled :=
    h₃.comp <| h₂.comp <| (xor_shiftRight_injective (k := 27) (by decide)).comp <|
      h₁.comp <| xor_shiftRight_injective (k := 30) (by decide)
  -- there are finitely many words, so none is left out
  exact Finite.injective_iff_bijective.mp hinjective

theorem skip_splitMix (t : Nat) : ∀ s : UInt64,
    splitMix.skip t s = s + t.toUInt64 * stride := by
  induction t with
  | zero => intro s; simp [skip]
  | succ t ih =>
    intro s
    rw [skip, draw_splitMix, ih]
    simp only [Nat.toUInt64_eq, UInt64.ofNat_add, UInt64.add_mul, UInt64.add_assoc]
    rw [UInt64.add_comm stride]
    simp

/-- Every word comes up within 2^64 draws. -/
theorem exists_draw_splitMix (s w : UInt64) :
    ∃ t < Dictionary.patience, (splitMix.draw (splitMix.skip t s)).1 = w := by
  obtain ⟨z, hz⟩ := scrambled_bijective.2 w
  have hinverse : 0xf1de83e19937733d * stride = 1 := by decide
  -- the number of steps from one state to another is a division by the stride
  refine ⟨((z - s - stride) * 0xf1de83e19937733d).toNat, UInt64.toNat_lt_size _, ?_⟩
  have hstate : s + (z - s - stride) + stride = z := by
    rw [UInt64.add_assoc, UInt64.sub_add_cancel, UInt64.add_comm, UInt64.sub_add_cancel]
  rw [draw_splitMix, skip_splitMix, Nat.toUInt64_eq, UInt64.ofNat_toNat, UInt64.mul_assoc,
    hinverse, UInt64.mul_one, hstate]
  exact hz

/-- So every number of a range comes up, if the range is no longer than all words. -/
theorem exists_remainder_splitMix (s : UInt64) {n x : Nat} (hx : x < n) (hn : n ≤ UInt64.size) :
    ∃ t < Dictionary.patience, (splitMix.draw (splitMix.skip t s)).1.toNat % n = x := by
  obtain ⟨t, ht, hw⟩ := exists_draw_splitMix s x.toUInt64
  refine ⟨t, ht, ?_⟩
  rw [hw, Nat.toUInt64_eq, UInt64.toNat_ofNat_of_lt' (Nat.lt_of_lt_of_le hx hn),
    Nat.mod_eq_of_lt hx]

end WordSource

/-! ## Drawing a chain -/

namespace Dictionary

variable {κ ν σ : Type} {d : Dictionary κ ν}

/-- No array has more than 2^63 buckets, so a word can number the buckets of both. -/
theorem Shape.endLive_le (hd : d.Shape) : d.endLive ≤ UInt64.size := by
  have hside : ∀ s, (d.side s).size ≤ 2 ^ 63 := by
    intro s
    rcases (hd.side s).sized with hnone | ⟨n, -, hn, hsize⟩
    · rw [hnone]
      exact Nat.zero_le _
    · rw [hsize]
      exact Nat.pow_le_pow_right (by decide) hn
  have hmain : d.main.size ≤ 2 ^ 63 := hside .main
  have htarget : d.target.size ≤ 2 ^ 63 := hside .target
  have hwords : UInt64.size = 2 ^ 63 + 2 ^ 63 := rfl
  rw [endLive]
  split <;> omega

/-- **Every chain has a number** in the range that is drawn from. -/
theorem Shape.exists_number (hd : d.Shape) {s : Side} {i : Nat} (hc : (d.side s).chain i ≠ []) :
    ∃ h, d.firstLive ≤ h ∧ h < d.endLive ∧ d.numbered h = (d.side s).chain i := by
  have hi : i < (d.side s).size := by
    by_contra hge
    exact hc (Buckets.chain_eq_nil (Nat.le_of_not_lt hge))
  cases s with
  | main =>
    refine ⟨i, ?_, ?_, ?_⟩
    · -- below the frontier nothing is left
      rw [firstLive]
      rcases hf : d.frontier with _ | next
      · exact Nat.zero_le i
      · exact Nat.le_of_not_lt fun hlt => hc (hd.behind next hf i hlt)
    · have hmain : i < d.main.size := hi
      rw [endLive]
      split <;> omega
    · exact if_neg (Nat.not_le.mpr hi)
  | target =>
    obtain ⟨next, hf⟩ : ∃ next, d.frontier = some next := by
      by_contra hnone
      refine hc ?_
      change d.target.chain i = []
      rw [hd.settled (Option.eq_none_iff_forall_ne_some.mpr fun next h => hnone ⟨next, h⟩),
        Buckets.chain_unallocated]
    obtain ⟨hnext, -⟩ := hd.moving next hf
    have htarget : i < d.target.size := hi
    refine ⟨d.main.size + i, ?_, ?_, ?_⟩
    · rw [firstLive, hf]
      exact Nat.le_trans (Nat.le_of_lt hnext) (Nat.le_add_right _ _)
    · rw [endLive, hf]
      exact Nat.add_lt_add_left htarget _
    · rw [numbered, if_pos (Nat.le_add_right _ _), Nat.add_sub_cancel_left]
      rfl

/-- A draw of a bucket costs one word. -/
theorem drawBucket_eq (g : WordSource σ) (d : Dictionary κ ν) (s : σ) :
    d.drawBucket g s =
      (d.firstLive + (g.draw s).1.toNat % (d.endLive - d.firstLive), (g.draw s).2) := rfl

/-- The number of a bucket that is drawn after so many other draws. -/
def drawn (d : Dictionary κ ν) (g : WordSource σ) (s : σ) (t : Nat) : Nat :=
  (d.drawBucket g (g.skip t s)).1

/-- What is drawn is in the range, if there is one. -/
theorem drawn_bounds (h : d.firstLive < d.endLive) (g : WordSource σ) (s : σ) (t : Nat) :
    d.firstLive ≤ d.drawn g s t ∧ d.drawn g s t < d.endLive := by
  rw [drawn, drawBucket_eq]
  have hlt := Nat.mod_lt (g.draw (g.skip t s)).1.toNat (Nat.sub_pos_of_lt h)
  exact ⟨Nat.le_add_right _ _, by omega⟩

/-- So many draws miss, and the next one hits a chain. -/
structure FirstHit (d : Dictionary κ ν) (g : WordSource σ) (s : σ) (t : Nat) : Prop where
  misses : ∀ i < t, d.numbered (d.drawn g s i) = []
  hit : d.numbered (d.drawn g s t) ≠ []

/-- Once there is a hit, there is a first one. -/
theorem exists_firstHit {g : WordSource σ} {s : σ} {t : Nat}
    (h : d.numbered (d.drawn g s t) ≠ []) : ∃ first ≤ t, d.FirstHit g s first := by
  classical
  have hsome : ∃ t, d.numbered (d.drawn g s t) ≠ [] := ⟨t, h⟩
  exact ⟨Nat.find hsome, Nat.find_min' hsome h,
    fun _ hi => not_not.mp (Nat.find_min hsome hi), Nat.find_spec hsome⟩

/-- So many tries all miss, or one of them is the first hit. -/
theorem misses_or_firstHit (d : Dictionary κ ν) (g : WordSource σ) (s : σ) (tries : Nat) :
    (∀ t < tries, d.numbered (d.drawn g s t) = []) ∨ ∃ t < tries, d.FirstHit g s t := by
  by_cases hmisses : ∀ t < tries, d.numbered (d.drawn g s t) = []
  · exact .inl hmisses
  · simp only [not_forall] at hmisses
    obtain ⟨t, ht, hhit⟩ := hmisses
    obtain ⟨first, hle, hfirst⟩ := exists_firstHit hhit
    exact .inr ⟨first, Nat.lt_of_le_of_lt hle ht, hfirst⟩

/-- **The first hit is the chain that is drawn**, if there are enough tries. -/
theorem FirstHit.drawChain_eq {g : WordSource σ} {s : σ} {t tries : Nat}
    (h : d.FirstHit g s t) (ht : t < tries) :
    d.drawChain g tries s = (some (d.numbered (d.drawn g s t)), g.skip (t + 1) s) := by
  obtain ⟨tries, rfl⟩ := Nat.exists_eq_succ_of_ne_zero (Nat.ne_of_gt (Nat.zero_lt_of_lt ht))
  -- induction on the misses, each of which costs a try
  induction t generalizing s tries with
  | zero =>
    rw [drawChain]
    dsimp only
    split
    · rename_i hmiss
      exact absurd hmiss h.hit
    · rfl
  | succ t ih =>
    obtain ⟨tries, rfl⟩ := Nat.exists_eq_succ_of_ne_zero (Nat.ne_of_gt (by omega : 0 < tries))
    have hmiss : d.numbered (d.drawBucket g s).1 = [] := h.misses 0 (Nat.succ_pos t)
    have hrest : d.FirstHit g (g.draw s).2 t :=
      ⟨fun i hi => h.misses (i + 1) (Nat.succ_lt_succ hi), h.hit⟩
    rw [drawChain]
    dsimp only
    rw [hmiss]
    exact ih hrest _ (Nat.lt_of_succ_lt_succ ht)

/-- **Misses alone** leave nothing to return. -/
theorem drawChain_of_misses {g : WordSource σ} {s : σ} {tries : Nat}
    (h : ∀ i < tries, d.numbered (d.drawn g s i) = []) :
    d.drawChain g tries s = (none, g.skip tries s) := by
  induction tries generalizing s with
  | zero => rfl
  | succ tries ih =>
    have hmiss : d.numbered (d.drawBucket g s).1 = [] := h 0 (Nat.succ_pos tries)
    rw [drawChain]
    dsimp only
    rw [hmiss]
    exact ih fun i hi => h (i + 1) (Nat.succ_lt_succ hi)

/-- **There is a chain to be drawn** if there is an entry. -/
theorem Shape.exists_chain (hd : d.Shape) (hne : d.toList ≠ []) :
    ∃ h, d.firstLive ≤ h ∧ h < d.endLive ∧ d.numbered h ≠ [] := by
  obtain ⟨b, hb⟩ := List.exists_mem_of_ne_nil _ hne
  obtain ⟨side, i, hi⟩ := mem_toList.mp hb
  obtain ⟨h, hfirst, hend, hnumbered⟩ := hd.exists_number (List.ne_nil_of_mem hi)
  exact ⟨h, hfirst, hend, hnumbered ▸ List.ne_nil_of_mem hi⟩

/-- **SplitMix hits in time** if there is an entry, whatever its state. -/
theorem Shape.exists_firstHit_splitMix (hd : d.Shape) (hne : d.toList ≠ []) (s : UInt64) :
    ∃ t < patience, d.FirstHit .splitMix s t := by
  obtain ⟨h, hfirst, hend, hchain⟩ := hd.exists_chain hne
  have hspan : d.endLive - d.firstLive ≤ UInt64.size :=
    Nat.le_trans (Nat.sub_le _ _) hd.endLive_le
  have hx : h - d.firstLive < d.endLive - d.firstLive := by omega
  obtain ⟨t, ht, hdraw⟩ := WordSource.exists_remainder_splitMix s hx hspan
  have hdrawn : d.drawn .splitMix s t = h := by
    rw [drawn, drawBucket_eq, hdraw, Nat.add_sub_cancel' hfirst]
  obtain ⟨first, hle, hhit⟩ := exists_firstHit (hdrawn.symm ▸ hchain)
  exact ⟨first, Nat.lt_of_le_of_lt hle ht, hhit⟩

/-- Where there are entries, there still are some when a bucket has moved along. -/
theorem Shape.toList_migrateStep_ne_nil {r : Rules κ ν} (hd : d.Shape)
    (hne : d.isEmpty = false) : (d.migrateStep r).toList ≠ [] := by
  intro hnil
  have hlength := ((shifts_migrateStep (r := r) hd).toList_perm hd).1.length_eq
  rw [hnil, ← hd.size_eq] at hlength
  rw [isEmpty, decide_eq_false_iff_not] at hne
  exact hne hlength.symm

end Dictionary

end TwinTable
