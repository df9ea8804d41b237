/-
Growth is over before the target is full.

Entries begin to move when there are some number of them, at least as many as the main array
has buckets, and the target is made for twice that number. From then on every entry that comes
in has to pay: the frontier goes on by a bucket at least before it is linked, through empty
buckets as well as through others. So there are never more entries than there were at the
beginning, and as many again as the frontier has gone buckets, and one (`Paced`). When the
frontier has gone through the main array this is no more than the target was made for, and then
the target is the main array.

While nothing moves, entries come to be as many as a ratio allows: one to a bucket while
resizing is on, since an insertion that finds so many makes the table grow; and one more than
`forcedRatio` if it may be off. Both are the one invariant, with the ratio as a parameter.
-/
import TwinTable.Proofs.Dictionary.History

set_option autoImplicit false

namespace TwinTable

namespace Dictionary

variable {κ ν : Type} {r : Rules κ ν} {d d' : Dictionary κ ν}

/-! ## The pace -/

/-- There are not too many entries for the arrays, and `room` more may come before a bucket
has to move again. -/
structure Paced (ratio room : Nat) (d : Dictionary κ ν) : Prop where
  /-- Nothing holds the entries back. -/
  walks : d.walks = 0
  /-- While nothing moves there are at most so many entries to a bucket. -/
  settled : d.frontier = none → d.size + room ≤ ratio * d.main.size
  /-- While entries move, the target has been made for twice the entries that there were in
  the beginning, and all that came since then were paid for with a bucket. -/
  moving : ∀ i, d.frontier = some i → ∃ n, d.main.size ≤ n ∧ n ≤ ratio * d.main.size ∧
    n * 2 ≤ d.target.size ∧ d.target.size = Buckets.sizeFor (n * 2) ∧ d.size + room ≤ n + i + 1

variable {ratio room room' : Nat}

theorem paced_empty : (empty : Dictionary κ ν).Paced ratio 0 :=
  ⟨rfl, fun _ => Nat.zero_le _, fun i hi => absurd hi (by simp [empty])⟩

/-- Where entries go and room is made for others nothing else matters. -/
theorem Paced.of_size_le (h : d.Paced ratio room) (hw : d'.walks = 0)
    (hf : d'.frontier = d.frontier) (hm : d'.main.size = d.main.size)
    (ht : d'.target.size = d.target.size) (hsize : d'.size + room' ≤ d.size + room) :
    d'.Paced ratio room' := by
  refine ⟨hw, fun hnone => ?_, fun i hi => ?_⟩
  · have hsettled := h.settled (hf ▸ hnone)
    rw [hm]
    omega
  · obtain ⟨n, hn, hn', htwice, hmade, hpaid⟩ := h.moving i (hf ▸ hi)
    rw [hm, ht]
    exact ⟨n, hn, hn', htwice, hmade, by omega⟩

theorem Paced.handAll (h : d.Paced ratio 0) (cs : List (Custody κ ν)) :
    (d.handAll cs).Paced ratio 0 := by
  obtain ⟨o, ho⟩ := exists_outbox_handAll cs d
  rw [ho]
  exact h.of_size_le h.walks rfl rfl rfl (le_refl _)

/-- Where the values of one array are revised nothing is counted anew. -/
theorem Paced.modifySide (h : d.Paced ratio 0) {s : Side} {f : Buckets κ ν → Buckets κ ν}
    (hf : (d.side s).SameLabels (f (d.side s))) : (d.modifySide s f).Paced ratio 0 := by
  cases s with
  | main =>
    refine h.of_size_le h.walks rfl hf.size rfl (Nat.le_of_eq ?_)
    exact congrArg (· + d.target.used + 0) hf.used
  | target =>
    refine h.of_size_le h.walks rfl rfl hf.size (Nat.le_of_eq ?_)
    exact congrArg (d.main.used + · + 0) hf.used

theorem Paced.setAt (h : d.Paced ratio 0) (p : Place) (f : Value ν → Value ν) :
    (d.setAt p f).Paced ratio 0 :=
  h.modifySide (Buckets.sameLabels_modifyValue _ _ _ _)

theorem Paced.store (h : d.Paced ratio 0) (p : Place) (v : ν) :
    (d.store r p v).Paced ratio 0 :=
  Paced.setAt (h.handAll [_]) p _

/-- An entry that is erased is one less. -/
theorem Paced.erase (h : d.Paced ratio 0) (p : Place) :
    (d.modifySide p.side fun t => t.erase p.index p.id).Paced ratio 0 := by
  obtain ⟨s, i, id⟩ := p
  cases s with
  | main =>
    refine h.of_size_le h.walks rfl (Buckets.size_erase _ _ _) rfl ?_
    change d.main.used - 1 + d.target.used + 0 ≤ d.main.used + d.target.used + 0
    omega
  | target =>
    refine h.of_size_le h.walks rfl rfl (Buckets.size_erase _ _ _) ?_
    change d.main.used + (d.target.used - 1) + 0 ≤ d.main.used + d.target.used + 0
    omega

/-- An entry that is linked takes the room that there is for it. -/
theorem Paced.link (h : d.Paced ratio 1) (k : κ) (hash : UInt64) :
    (d.link r k hash).2.Paced ratio 0 := by
  rw [link_eq]
  rcases hr : d.receiving with _ | _
  · refine h.of_size_le h.walks rfl (Buckets.size_push _ _ _) rfl ?_
    change d.main.used + 1 + d.target.used + 0 ≤ d.main.used + d.target.used + 1
    omega
  · refine h.of_size_le h.walks rfl rfl (Buckets.size_push _ _ _) ?_
    change d.main.used + (d.target.used + 1) + 0 ≤ d.main.used + d.target.used + 1
    omega

theorem Paced.clear (h : d.Paced ratio 0) : d.clear.2.Paced ratio 0 := by
  obtain ⟨o, ho⟩ := d.clear_eq
  rw [ho]
  exact ⟨h.walks, fun _ => Nat.zero_le _, fun i hi => absurd hi (by simp)⟩

theorem Paced.reviseBuckets {τ : Type} (f : τ → κ → Value ν → Value ν × τ)
    (buckets : List Cursor.Bucket) : ∀ (before : List (List (Binding κ ν))) (s : τ)
      {d : Dictionary κ ν}, d.Paced ratio 0 →
        (reviseBuckets f before buckets s d).2.2.Paced ratio 0 := by
  induction buckets with
  | nil => intro before s d h; exact h
  | cons b buckets ih =>
    intro before s d h
    rw [Dictionary.reviseBuckets]
    exact ih _ _ (h.modifySide
      (Buckets.sameLabels_modify _ _ _ (map_label_reviseChain f _ s)))

/-! ## Moving on -/

/-- When the frontier has reached the end, the target has room for all. -/
theorem Paced.size_le_target (h : d.Paced ratio 0) (hd : d.Shape) {i : Nat}
    (hf : d.frontier = some i) : d.size ≤ d.target.size := by
  obtain ⟨n, hn, -, htwice, -, hpaid⟩ := h.moving i hf
  have hlt := (hd.moving i hf).1
  omega

/-- **Moving keeps the pace.** If buckets were asked for and there are still some to move, it
makes room for one more entry. -/
theorem Paced.migrate (h : d.Paced ratio 0) (hd : d.Shape) (hratio : 1 ≤ ratio) (n : Nat) :
    (d.migrate r n).2.Paced ratio 0 ∧
      (n ≠ 0 → (d.migrate r n).2.migrating = true → (d.migrate r n).2.Paced ratio 1) := by
  rcases hf : d.frontier with _ | i
  · rw [migrate_of_frontier_none r hf]
    refine ⟨h, fun _ hm => ?_⟩
    rw [migrating, hf] at hm
    exact absurd hm (by simp)
  · obtain ⟨hw, hsize, hcase⟩ := migrate_cases (r := r) hd h.walks hf n
    obtain ⟨m, hm, hm', htwice, hmade, hpaid⟩ := h.moving i hf
    rcases hcase with ⟨hnone, hmain⟩ | ⟨j, hj, hle, hlt, hmain, htarget⟩
    · have hfits := h.size_le_target hd hf
      refine ⟨⟨hw, fun _ => ?_, fun j hj => ?_⟩, fun _ hmoving => ?_⟩
      · rw [hsize, hmain]
        exact hfits.trans (Nat.le_mul_of_pos_left _ hratio)
      · rw [hnone] at hj
        exact absurd hj (by simp)
      · rw [migrating, hnone] at hmoving
        exact absurd hmoving (by simp)
    · have hpace : ∀ room, m + i + 1 + room ≤ m + j + 1 →
          (d.migrate r n).2.Paced ratio room := by
        intro room hroom
        refine ⟨hw, fun hnone => ?_, fun j' hj' => ?_⟩
        · rw [hj] at hnone
          exact absurd hnone (by simp)
        · obtain rfl : j = j' := Option.some.inj (hj.symm.trans hj')
          rw [hmain, htarget, hsize]
          exact ⟨m, hm, hm', htwice, hmade, by omega⟩
      refine ⟨hpace 0 (by omega), fun hn _ => hpace 1 ?_⟩
      have hon := hlt hn
      omega

/-- So all that is put together from moving keeps the pace. -/
theorem steadfast_paced (r : Rules κ ν) (hratio : 1 ≤ ratio) :
    Steadfast r fun d => d.Shape ∧ d.Paced ratio 0 where
  migrate n h := ⟨h.1.shifts (shifts_migrate r h.1 n), (h.2.migrate h.1 hratio n).1⟩
  note n h :=
    have hnoted : Shifts r.hash _ _ := shifts_note _ n
    ⟨h.1.shifts hnoted, h.2.of_size_le h.2.walks rfl rfl rfl (le_refl _)⟩

/-! ## Room for one more -/

/-- The first array has room for the first entry. -/
theorem Paced.expand_first (h : d.Paced ratio 0) (hd : d.Shape) (hratio : 1 ≤ ratio)
    (hf : d.frontier = none) (hm : d.main.size = 0) :
    ∃ d', d.expand Buckets.leastSize = (.ok (), d') ∧ d'.Paced ratio 1 := by
  have hsize : Buckets.sizeFor Buckets.leastSize = 4 := by decide
  have hnothing : d.main.used = 0 := by
    rw [hd.main.eq_unallocated hm]
    rfl
  have hempty := h.settled hf
  rw [hm, Nat.mul_zero] at hempty
  rw [expand, if_neg (by rw [migrating, hf]; decide), hsize,
    if_neg (by simp [hm, hnothing]), if_neg (by simp [Buckets.isAllocated, hm])]
  refine ⟨_, rfl, h.walks, fun _ => ?_, fun i hi => ?_⟩
  · change 0 + d.target.used + 1 ≤
      ratio * (Buckets.allocate d.nextArray 4 : Buckets κ ν).size
    rw [Buckets.size_allocate]
    change d.main.used + d.target.used + 0 ≤ 0 at hempty
    omega
  · change d.frontier = some i at hi
    rw [hf] at hi
    exact absurd hi (by simp)

/-- A table with as many entries as buckets begins to grow when it is asked to, and has room
for one more entry then. -/
theorem Paced.expand_full (h : d.Paced ratio 0) (hd : d.Shape) (hf : d.frontier = none)
    (hm : d.main.size ≠ 0) (hfull : d.main.size ≤ d.main.used) (hfits : d.size ≤ 2 ^ 62) :
    ∃ d', d.expand (d.main.used * 2) = (.ok (), d') ∧ d'.Paced ratio 1 := by
  have hused : d.size = d.main.used := by
    rw [size, hd.settled hf]
    rfl
  have hsettled := h.settled hf
  have hroom : d.main.used * 2 ≤ Buckets.sizeFor (d.main.used * 2) :=
    Buckets.le_sizeFor (by omega)
  have hnot : ¬ (d.main.used > d.main.used * 2 ||
      Buckets.sizeFor (d.main.used * 2) = d.main.size) = true := by
    rw [Bool.or_eq_true, decide_eq_true_iff, decide_eq_true_iff]
    omega
  rw [expand, if_neg (by rw [migrating, hf]; decide), if_neg hnot,
    if_pos (isAllocated_eq_true.mpr hm)]
  refine ⟨_, rfl, h.walks, fun hnone => absurd hnone (by simp), ?_⟩
  rintro _ ⟨⟩
  refine ⟨d.main.used, hfull, hused ▸ hsettled, ?_, Buckets.size_allocate _ _, ?_⟩
  · change d.main.used * 2 ≤
      (Buckets.allocate d.nextArray (Buckets.sizeFor (d.main.used * 2)) : Buckets κ ν).size
    rwa [Buckets.size_allocate]
  · change d.main.used + 0 + 1 ≤ d.main.used + 0 + 1
    exact le_refl _

/-- **Growth makes room for one more entry**, where moving has not. The ratio has to leave
room for those entries that come while resizing is off. -/
theorem Paced.growIfNeeded (h : d.Paced ratio 0) (hd : d.Shape) (hratio : 1 ≤ ratio)
    (hforced : r.settings.resizing = true ∨ forcedRatio < ratio) (hfits : d.size ≤ 2 ^ 62)
    (hmoving : d.migrating = true → d.Paced ratio 1) : (d.growIfNeeded r).Paced ratio 1 := by
  by_cases hm : d.migrating = true
  · rw [Dictionary.growIfNeeded, if_pos hm]
    exact hmoving hm
  · have hf : d.frontier = none := migrating_eq_false.mp (by simpa using hm)
    have hused : d.size = d.main.used := by
      rw [size, hd.settled hf]
      rfl
    have hroom : d.size < ratio * d.main.size → d.Paced ratio 1 := fun hlt =>
      ⟨h.walks, fun _ => hlt, fun i hi => absurd (hf.symm.trans hi) (by simp)⟩
    rw [Dictionary.growIfNeeded, if_neg hm]
    by_cases ha : d.main.size = 0
    · obtain ⟨d', he, hpaced⟩ := h.expand_first hd hratio hf ha
      rw [if_pos (by simp [Buckets.isAllocated, ha]), he]
      exact hpaced
    · rw [if_neg (by simp [Buckets.isAllocated, ha])]
      split_ifs with hlt hw hgrow
      · exact hroom (hused ▸ Nat.lt_of_lt_of_le hlt (Nat.le_mul_of_pos_left _ hratio))
      · exact absurd h.walks (Nat.ne_of_gt hw)
      · obtain ⟨d', he, hpaced⟩ := h.expand_full hd hf ha (Nat.le_of_not_lt hlt) hfits
        rw [he]
        exact hpaced
      · -- resizing is off and the ratio is not reached, so there is room below it
        rw [Bool.or_eq_true, decide_eq_true_iff, not_or, Nat.not_lt] at hgrow
        have hbelow : d.main.used < ratio * d.main.size := by
          have hratio' := hforced.resolve_left hgrow.1
          exact Nat.lt_mul_of_div_lt (Nat.lt_of_le_of_lt hgrow.2 hratio') (Nat.pos_of_ne_zero ha)
        exact (hroom (hused ▸ hbelow)).of_size_le h.walks rfl rfl rfl (le_refl _)

section Insertions

variable (h : d.Paced ratio 0) (hd : d.Shape) (hratio : 1 ≤ ratio)
  (hforced : r.settings.resizing = true ∨ forcedRatio < ratio) (hfits : d.size ≤ 2 ^ 62)
include h hd hratio hforced hfits

/-- **An insertion keeps the pace**: a bucket moves for the entry, or there is room for it
where nothing moves. -/
theorem Paced.claim (k : κ) : (d.claim r k).2.Paced ratio 0 := by
  have hstep : Shifts r.hash d (d.migrateStep r) := shifts_migrateStep hd
  have hmoved : (d.migrateStep r).Paced ratio 0 ∧
      ((d.migrateStep r).migrating = true → (d.migrateStep r).Paced ratio 1) := by
    obtain ⟨hpaced, hroom⟩ := h.migrate (r := r) hd hratio 1
    rw [migrateStep, if_pos h.walks]
    exact ⟨hpaced, hroom (by decide)⟩
  have hready : ((d.migrateStep r).growIfNeeded r).Paced ratio 1 :=
    hmoved.1.growIfNeeded (hd.shifts hstep) hratio hforced
      ((size_of_shifts hd hstep).trans_le hfits) hmoved.2
  rw [Dictionary.claim]
  dsimp only
  split
  · exact hready.of_size_le hready.walks rfl rfl rfl (Nat.le_succ _)
  · exact hready.link k _

theorem Paced.add (k : κ) (v : ν) : (d.add r k v).2.Paced ratio 0 := by
  have hclaim := h.claim hd hratio hforced hfits k
  rw [Dictionary.add]
  revert hclaim
  rcases d.claim r k with ⟨p | p, d'⟩
  · exact fun hclaim => hclaim.store p v
  · exact id

theorem Paced.replace (k : κ) (v : ν) : (d.replace r k v).2.Paced ratio 0 := by
  have hclaim := h.claim hd hratio hforced hfits k
  rw [Dictionary.replace]
  revert hclaim
  rcases d.claim r k with ⟨p | p, d'⟩
  · exact fun hclaim => hclaim.store p v
  · intro hclaim
    dsimp only
    rcases d'.entry? p with _ | old
    · exact hclaim.store p v
    · exact (hclaim.store p v).handAll _

end Insertions

theorem Paced.unlink (h : d.Paced ratio 0) (hd : d.Shape) (hratio : 1 ≤ ratio) (k : κ) :
    (d.unlink r k).2.Paced ratio 0 := by
  have hfind := ((steadfast_paced r hratio).find k ⟨hd, h⟩).2
  rcases unlink_cases (r := r) d k with hnone | ⟨p, b, -, hsome⟩
  · rw [hnone]
    exact hfind
  · rw [hsome]
    exact hfind.erase p

theorem Paced.delete (h : d.Paced ratio 0) (hd : d.Shape) (hratio : 1 ≤ ratio) (k : κ) :
    (d.delete r k).2.Paced ratio 0 := by
  have hunlink := h.unlink (r := r) hd hratio k
  rw [Dictionary.delete]
  revert hunlink
  rcases d.unlink r k with ⟨_ | b, d'⟩
  · exact id
  · exact fun hunlink => hunlink.handAll _

end Dictionary

/-! ## Whole histories -/

/-- An operation of everyday use: it asks for no size, and does not hold the entries back. -/
def Operation.IsRoutine {κ ν : Type} : Operation κ ν → Prop
  | .expand _ | .resizeTo _ | .shrinkToFit | .safeWalk => False
  | _ => True

namespace Situation

variable {κ ν σ : Type} (K : Keying κ ν) (g : WordSource σ) {ratio : Nat}

open Dictionary

/-- **Every operation of everyday use keeps the pace.** -/
theorem paced_perform {s : Situation κ ν σ} (hs : s.dictionary.Shape)
    (h : s.dictionary.Paced ratio 0) (hratio : 1 ≤ ratio)
    (hforced : s.settings.resizing = true ∨ forcedRatio < ratio)
    (hfits : s.dictionary.size ≤ 2 ^ 62) {op : Operation κ ν} (hop : op.IsRoutine) :
    (s.perform K g op).2.dictionary.Paced ratio 0 := by
  have hP := steadfast_paced (s.rules K) hratio
  cases op with
  | add k v => exact h.add (r := s.rules K) hs hratio hforced hfits k v
  | claim k set => exact (h.claim (r := s.rules K) hs hratio hforced hfits k).setAt _ _
  | replace k v => exact h.replace (r := s.rules K) hs hratio hforced hfits k v
  | find k set =>
    have hfind := (hP.find k ⟨hs, h⟩).2
    rw [perform]
    revert hfind
    rcases s.dictionary.find (s.rules K) k with ⟨_ | p, d⟩
    · exact id
    · exact fun hfind => hfind.setAt p set
  | unlink k => exact h.unlink hs hratio k
  | delete k => exact h.delete hs hratio k
  | discard b => exact h.handAll _
  | clear => exact h.clear
  | migrate n => exact (hP.migrate n ⟨hs, h⟩).2
  | migrateFor rounds => exact (hP.migrateFor rounds ⟨hs, h⟩).2
  | allowResizing allowed => exact (hP.note _ ⟨hs, h⟩).2
  | pick => exact (hP.pick g s.words ⟨hs, h⟩).2
  | pickFairly => exact (hP.pickFairly g s.words ⟨hs, h⟩).2
  | sample count => exact (hP.sample g count s.words ⟨hs, h⟩).2
  | scan cursor => exact h
  | scanRevising f start cursor => exact Paced.reviseBuckets f _ _ _ h
  | walk => exact h
  | advance w => exact h
  | endWalk w =>
    change (s.dictionary.endWalk w).2.Paced ratio 0
    rw [endWalk]
    split_ifs
    · refine h.of_size_le ?_ rfl rfl rfl (le_refl _)
      change s.dictionary.walks - 1 = 0
      rw [h.walks]
    · exact h
    · exact h
  | expand | resizeTo | shrinkToFit | safeWalk => exact absurd hop id

/-- So does every history, as long as there are not more entries than could be counted twice
in a word of sixty-four bits. -/
theorem paced_after (hratio : 1 ≤ ratio) : ∀ (ops : List (Operation κ ν)) (s : Situation κ ν σ),
    s.dictionary.Shape → s.dictionary.Paced ratio 0 → (∀ op ∈ ops, op.IsRoutine) →
    (∀ t ∈ s.passed K g ops, t.dictionary.size ≤ 2 ^ 62) →
    (∀ t ∈ s.passed K g ops, t.settings.resizing = true ∨ forcedRatio < ratio) →
      (s.after K g ops).dictionary.Paced ratio 0 := by
  intro ops
  -- induction on the row of operations, from the front, as `after` and `passed` take them
  induction ops with
  | nil => exact fun s _ h _ _ _ => h
  | cons op ops ih =>
    intro s hs h hroutine hfits hforced
    have hperform := paced_perform K g hs h hratio (hforced s List.mem_cons_self)
      (hfits s List.mem_cons_self) (hroutine op List.mem_cons_self)
    exact ih _ (hs.changes (changes_perform K g hs op)) hperform
      (fun op' hop' => hroutine op' (List.mem_cons_of_mem _ hop'))
      (fun t ht => hfits t (List.mem_cons_of_mem _ ht))
      (fun t ht => hforced t (List.mem_cons_of_mem _ ht))

/-- **Growth is over in time.** A new dictionary is used with any operations but those that
ask for a size or open a safe walk. While entries move there are never more of them than the
target has buckets; while nothing moves there are at most six to a bucket, and none without a
table. If resizing was on all the time there is at most one to a bucket while nothing moves,
and a target has twice as many buckets as the main array.

An array has at most 2^63 buckets, the largest power of two that a size can be. A table as
large as that could not grow any more, so the entries have to be fewer than half of them; no
memory holds as many. -/
theorem growth_is_over_in_time (settings : Settings) (words : σ) (ops : List (Operation κ ν))
    (routine : ∀ op ∈ ops, op.IsRoutine)
    (fits : ∀ t ∈ (start settings words).passed K g ops, t.dictionary.size ≤ 2 ^ 62) :
    let d := ((start settings words).after K g ops).dictionary
    (d.migrating = true → d.size ≤ d.target.size) ∧
      (d.migrating = false → d.size ≤ 6 * d.main.size ∧ (d.main.size = 0 → d.main.used = 0)) ∧
      ((∀ t ∈ (start settings words).passed K g ops, t.settings.resizing = true) →
        (d.migrating = false → d.size ≤ d.main.size) ∧
          (d.migrating = true → d.target.size = 2 * d.main.size)) := by
  intro d
  have hshape : d.Shape := shape_after K g settings words ops
  have hpaced : ∀ ratio, 1 ≤ ratio →
      (∀ t ∈ (start settings words).passed K g ops,
        t.settings.resizing = true ∨ forcedRatio < ratio) → d.Paced ratio 0 :=
    fun ratio hratio => paced_after K g hratio ops _ shape_empty paced_empty routine fits
  have hsix := hpaced 6 (by decide) fun _ _ => .inr (by decide)
  refine ⟨fun hm => ?_, fun hm => ⟨hsix.settled (migrating_eq_false.mp hm), fun hnone => ?_⟩,
    fun hon => ?_⟩
  · obtain ⟨i, hi⟩ := migrating_eq_true.mp hm
    exact hsix.size_le_target hshape hi
  · rw [hshape.main.eq_unallocated hnone]
    rfl
  · have hone := hpaced 1 (le_refl _) fun t ht => .inl (hon t ht)
    refine ⟨fun hm => ?_, fun hm => ?_⟩
    · have hsettled := hone.settled (migrating_eq_false.mp hm)
      rwa [Nat.one_mul] at hsettled
    · obtain ⟨i, hi⟩ := migrating_eq_true.mp hm
      obtain ⟨n, hn, hn', htwice, hmade, -⟩ := hone.moving i hi
      obtain ⟨k, hk, -, hsize⟩ := hshape.main.exists_size (Nat.ne_of_gt (Nat.zero_lt_of_lt
        (hshape.moving i hi).1))
      -- the entries were as many as buckets, so the target was made for a power of two
      obtain rfl : n = 2 ^ k := by omega
      have hpower : 2 ^ k * 2 = 2 ^ (k + 1) := (pow_succ 2 k).symm
      have hbound : k + 1 ≤ 63 := by
        have hle := htwice.trans (hmade ▸ Buckets.sizeFor_le _)
        rw [hpower] at hle
        exact (Nat.pow_le_pow_iff_right (by omega)).mp hle
      rw [hmade, hpower, Buckets.sizeFor_two_pow (by omega) hbound, hsize, Nat.mul_comm, hpower]

/-- Four buckets become too few, and after two more calls entries are still on their way to
eight. -/
theorem growth_of_four_buckets :
    let ops := [.add 0 "a", .add 1 "b", .add 2 "c", .add 3 "d", .add 4 "e", .add 5 "f",
      .find 3 id]
    let d := ((start .standard 0).after (Keying.numbers String) WordSource.splitMix ops).dictionary
    d.migrating = true ∧ d.size ≤ d.target.size ∧ d.target.size = 2 * d.main.size := by
  intro ops d
  have hmoving : d.migrating = true := by decide +kernel
  obtain ⟨hmove, -, hon⟩ := growth_is_over_in_time (Keying.numbers String) WordSource.splitMix
    .standard 0 ops (by simp [ops, Operation.IsRoutine]) (by decide +kernel)
  exact ⟨hmoving, hmove hmoving, (hon (by decide +kernel)).2 hmoving⟩

/-- While resizing is off four buckets take twenty-four entries, six to each. -/
example :
    let ops := .allowResizing false :: (List.range 24).map fun k => .add k.toUInt64 "x"
    let d := ((start .standard 0).after (Keying.numbers String) WordSource.splitMix ops).dictionary
    d.migrating = false ∧ d.main.size = 4 ∧ d.size = 6 * d.main.size := by
  decide +kernel

end Situation

end TwinTable
