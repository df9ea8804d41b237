/-
Bucket functions: what a caller may do with each bucket of a scan before it is visited.

A scan that revises values hands each bucket over first. The caller may ask it how many entries
it has, or whether it has any, and may pass over the entries and revise their values, all of it
as often as it likes, and what it does next may hang on what it has seen (`Handling`). The
running dictionary knows this with one pass for each bucket (`Dictionary.scanRevising`); here
the caller is free, and the running scan is the case of a single pass (`scanRevising_eq`).

However it is done, labels stay: a bucket has the same handles and keys afterwards, in the same
order (`Handling.map_label_run`). From this comes what such a scan owes to one that only reads:
since all the buckets it covers are different ones (`Shape.nodup_cover`), each is handled as it
was before the scan, and is left as it was visited.
-/
import TwinTable.Proofs.Dictionary.Handles
import TwinTable.Proofs.Dictionary.Ledger
import TwinTable.Proofs.Dictionary.WholeScan

set_option autoImplicit false

namespace TwinTable

variable {κ ν τ : Type}

/-! ## Bucket functions -/

/-- What is done with a bucket. A pass gives a new value and a new state for each entry, and
`next` goes on from the state at its end; the state at the end of everything is passed on to
what comes after the bucket. -/
inductive Handling (κ ν τ : Type) where
  | done (s : τ)
  | askLength (next : Nat → Handling κ ν τ)
  | askEmpty (next : Bool → Handling κ ν τ)
  | forEach (f : τ → κ → Value ν → Value ν × τ) (s : τ) (next : τ → Handling κ ν τ)

/-- One thing that was done with a bucket, and what came of it. -/
inductive Call (κ ν : Type) where
  | length (answer : Nat)
  | empty (answer : Bool)
  /-- A pass, with the keys and the values that it came to, as it found them. -/
  | forEach (reached : List (κ × Value ν))
deriving DecidableEq

/-- What came of handling a bucket. -/
structure Handled (κ ν τ : Type) where
  calls : List (Call κ ν)
  state : τ
  /-- The chain as it was left. -/
  chain : List (Binding κ ν)

/-- Handles a bucket with a given chain. -/
def Handling.run : Handling κ ν τ → List (Binding κ ν) → Handled κ ν τ
  | .done s, c => ⟨[], s, c⟩
  | .askLength next, c =>
    let r := (next c.length).run c
    { r with calls := .length c.length :: r.calls }
  | .askEmpty next, c =>
    let r := (next c.isEmpty).run c
    { r with calls := .empty c.isEmpty :: r.calls }
  | .forEach f s next, c =>
    let (c', s') := Dictionary.reviseChain f s c
    let r := (next s').run c'
    { r with calls := .forEach (c.map Binding.pair) :: r.calls }

/-- Whether a call was answered as it has to be for a bucket with these entries: with how many
there are, with whether there are any, and by coming to each of them once, in order. -/
def Call.Fits (c : List (Binding κ ν)) : Call κ ν → Prop
  | .length answer => answer = c.length
  | .empty answer => answer = c.isEmpty
  | .forEach reached => reached.map Prod.fst = c.map (·.key)

namespace Handling

/-- **Labels stay**, whatever is done. -/
theorem map_label_run (h : Handling κ ν τ) : ∀ c : List (Binding κ ν),
    (h.run c).chain.map Binding.label = c.map Binding.label := by
  induction h with
  | done s => exact fun _ => rfl
  | askLength next ih => exact fun c => ih c.length c
  | askEmpty next ih => exact fun c => ih c.isEmpty c
  | forEach f s next ih =>
    intro c
    exact (ih _ _).trans (Dictionary.map_label_reviseChain f c s)

end Handling

/-- Which answers fit is a matter of the labels. -/
theorem Call.Fits.congr {c c' : List (Binding κ ν)}
    (hlabels : c'.map Binding.label = c.map Binding.label) {call : Call κ ν}
    (h : call.Fits c) : call.Fits c' := by
  cases call with
  | length answer => exact Eq.trans h (length_eq_of_label hlabels).symm
  | empty answer =>
    have hempty := congrArg List.isEmpty hlabels
    rw [List.isEmpty_map, List.isEmpty_map] at hempty
    exact Eq.trans h hempty.symm
  | forEach reached => exact Eq.trans h (map_key_of_label hlabels).symm

namespace Handling

/-- **Every answer fits** the entries, those to questions after a pass as well. -/
theorem fits_run (h : Handling κ ν τ) : ∀ c : List (Binding κ ν),
    ∀ call ∈ (h.run c).calls, call.Fits c := by
  induction h with
  | done s => exact fun _ _ hcall => absurd hcall List.not_mem_nil
  | askLength next ih =>
    intro c call hcall
    rcases List.mem_cons.mp hcall with rfl | hcall
    · exact rfl
    · exact ih _ c call hcall
  | askEmpty next ih =>
    intro c call hcall
    rcases List.mem_cons.mp hcall with rfl | hcall
    · exact rfl
    · exact ih _ c call hcall
  | forEach f s next ih =>
    intro c call hcall
    rcases List.mem_cons.mp hcall with rfl | hcall
    · exact List.map_map
    · exact (ih _ _ call hcall).congr (Dictionary.map_label_reviseChain f c s).symm

end Handling

/-! ## A scan -/

/-- What happened with one bucket of a scan. -/
structure BucketTurn (κ ν : Type) where
  bucket : Cursor.Bucket
  /-- What was done with it before it was visited. -/
  calls : List (Call κ ν)
  visits : List (Binding κ ν)

/-- What came of a scan with a bucket function. -/
structure BucketScan (κ ν τ : Type) where
  turns : List (BucketTurn κ ν)
  next : UInt64
  state : τ
  dictionary : Dictionary κ ν

/-- All visits of a scan, in order. -/
def BucketScan.visits (r : BucketScan κ ν τ) : List (Binding κ ν) := r.turns.flatMap (·.visits)

namespace Dictionary

variable {d d' : Dictionary κ ν}

/-- Puts a chain in the place of that of a bucket. -/
def setChain (d : Dictionary κ ν) (b : Cursor.Bucket) (c : List (Binding κ ν)) :
    Dictionary κ ν :=
  d.modifySide b.1 fun t => { t with chains := t.chains.modify b.2 fun _ => c }

/-- Handles each bucket and then visits its entries. Both pass the state along. -/
def handBuckets (h : τ → Handling κ ν τ) (visit : τ → Binding κ ν → τ) :
    List Cursor.Bucket → τ → Dictionary κ ν → List (BucketTurn κ ν) × τ × Dictionary κ ν
  | [], s, d => ([], s, d)
  | b :: rest, s, d =>
    let r := (h s).run (d.chainAt b)
    let d := d.setChain b r.chain
    let visits := d.chainAt b
    let (turns, s, d) := handBuckets h visit rest (visits.foldl visit r.state) d
    (⟨b, r.calls, visits⟩ :: turns, s, d)

/-- Scans as `scan` does, but first hands each bucket to a bucket function. -/
def scanBuckets (h : τ → Handling κ ν τ) (visit : τ → Binding κ ν → τ) (s : τ)
    (d : Dictionary κ ν) (cursor : UInt64) : BucketScan κ ν τ :=
  let (buckets, next) := d.cover cursor
  let (turns, s, d) := d.handBuckets h visit buckets s
  ⟨turns, next, s, d⟩

/-! ## What changes -/

/-- A dictionary later, when values in some buckets have changed and nothing else has. -/
structure SameBut (buckets : List Cursor.Bucket) (d d' : Dictionary κ ν) : Prop where
  rest : d' = { d with main := d'.main, target := d'.target }
  labels : ∀ s, (d.side s).SameLabels (d'.side s)
  outside : ∀ b ∉ buckets, d'.chainAt b = d.chainAt b

theorem SameBut.refl (buckets : List Cursor.Bucket) (d : Dictionary κ ν) : d.SameBut buckets d :=
  ⟨rfl, fun _ => .refl _, fun _ _ => rfl⟩

theorem SameBut.trans {buckets : List Cursor.Bucket} {d'' : Dictionary κ ν}
    (h : d.SameBut buckets d') (h' : d'.SameBut buckets d'') : d.SameBut buckets d'' := by
  refine ⟨?_, fun s => (h.labels s).trans (h'.labels s),
    fun b hb => (h'.outside b hb).trans (h.outside b hb)⟩
  rw [h'.rest, h.rest]

theorem SameBut.mono {buckets buckets' : List Cursor.Bucket} (h : d.SameBut buckets d')
    (hsub : buckets ⊆ buckets') : d.SameBut buckets' d' :=
  ⟨h.rest, h.labels, fun b hb => h.outside b fun hmem => hb (hsub hmem)⟩

/-- What a scan covers stays. -/
theorem SameBut.cover {buckets : List Cursor.Bucket} (h : d.SameBut buckets d')
    (cursor : UInt64) : d'.cover cursor = d.cover cursor := by
  have hmain : d.main.SameLabels d'.main := h.labels .main
  have htarget : d.target.SameLabels d'.target := h.labels .target
  have hfrontier : d'.frontier = d.frontier := by rw [h.rest]
  have hlayout : d'.layout? = d.layout? := by
    rw [layout?, layout?, isEmpty, isEmpty, size, size, migrating, migrating, Buckets.mask,
      Buckets.mask, Buckets.mask, Buckets.mask, hmain.used, htarget.used, hmain.size,
      htarget.size, hfrontier]
  rw [Dictionary.cover, Dictionary.cover, hlayout]

theorem chainAt_setChain_of_ne (d : Dictionary κ ν) {b b' : Cursor.Bucket} (h : b ≠ b')
    (c : List (Binding κ ν)) : (d.setChain b c).chainAt b' = d.chainAt b' := by
  obtain ⟨s, i⟩ := b
  obtain ⟨s', j⟩ := b'
  rw [chainAt, setChain]
  by_cases hs : s' = s
  · subst hs
    rw [side_modifySide_self, Buckets.chain_modify, if_neg fun hij => h (Prod.ext rfl hij.1)]
    rfl
  · rw [side_modifySide_of_ne hs]
    rfl

theorem chainAt_setChain_self (d : Dictionary κ ν) {b : Cursor.Bucket} {c : List (Binding κ ν)}
    (hlabels : c.map Binding.label = (d.chainAt b).map Binding.label) :
    (d.setChain b c).chainAt b = c := by
  rw [chainAt, setChain, side_modifySide_self]
  exact Buckets.chain_modify_self _ _ hlabels

theorem sameBut_setChain (d : Dictionary κ ν) {b : Cursor.Bucket} {c : List (Binding κ ν)}
    (hlabels : c.map Binding.label = (d.chainAt b).map Binding.label) :
    d.SameBut [b] (d.setChain b c) where
  rest := by
    obtain ⟨s, i⟩ := b
    cases s <;> rfl
  labels s := by
    by_cases hs : s = b.1
    · subst hs
      rw [setChain, side_modifySide_self]
      exact Buckets.sameLabels_modify _ _ _ hlabels
    · rw [setChain, side_modifySide_of_ne hs]
      exact .refl _
  outside b' hb' := d.chainAt_setChain_of_ne (Ne.symm (List.ne_of_not_mem_cons hb')) c

theorem Shape.setChain (r : Rules κ ν) (hd : d.Shape) {b : Cursor.Bucket}
    {c : List (Binding κ ν)}
    (hlabels : c.map Binding.label = (d.chainAt b).map Binding.label) :
    (d.setChain b c).Shape :=
  hd.change (gain_modifySide (r := r) (Buckets.sameLabels_modify _ _ _ hlabels)).change

end Dictionary

/-! ## The buckets under a cursor -/

namespace Cursor

/-- Different intervals have different buckets. -/
theorem nodup_map_bucketAt {n : Nat} (hn : n ≤ 64) {js : List Nat} (hjs : js.Nodup)
    (hlt : ∀ j ∈ js, j < 2 ^ n) : (js.map (bucketAt n)).Nodup := by
  have hall := (perm_bucketAt hn).nodup_iff.mpr List.nodup_range
  refine List.Nodup.map_on (fun i hi j hj hij => ?_) hjs
  exact List.inj_on_of_nodup_map hall (List.mem_range.mpr (hlt i hi))
    (List.mem_range.mpr (hlt j hj)) hij

/-- From an interval on to the end of its row, when all rows have the same length. -/
theorem lt_of_mem_row {first length rows j : Nat} (hpos : 0 < length)
    (hfirst : first < length * rows)
    (hj : j ∈ List.range' first (length - first % length)) : j < length * rows :=
  calc j < first + (length - first % length) := (List.mem_range'_1.mp hj).2
    _ ≤ length * (first / length + 1) := by
      have hdiv := Nat.div_add_mod first length
      have hmod := Nat.mod_lt first hpos
      rw [Nat.mul_succ]
      omega
    _ ≤ length * rows := Nat.mul_le_mul_left _ (Nat.div_lt_of_lt_mul hfirst)

end Cursor

namespace Dictionary

variable {d : Dictionary κ ν}

/-- **All buckets under a cursor are different ones.** -/
theorem Shape.nodup_cover (hd : d.Shape) (cursor : UInt64) : (d.cover cursor).1.Nodup := by
  cases hne : d.isEmpty with
  | true =>
    rw [Dictionary.cover, layout?, if_pos hne]
    exact List.nodup_nil
  | false =>
    cases hm : d.migrating with
    | false =>
      rw [Dictionary.cover, layout?, if_neg (by simp [hne]), if_pos (by simp [hm])]
      exact List.nodup_singleton _
    | true =>
      obtain ⟨small, large, a, b, hother, hab, hb, -, -, hcover⟩ := cover_migrating hd hne hm
      rw [hcover, List.nodup_cons]
      constructor
      · intro hmem
        obtain ⟨j, -, hj⟩ := List.mem_map.mp hmem
        exact hother (congrArg Prod.fst hj).symm
      · have hsplit : 2 ^ b = 2 ^ (b - a) * 2 ^ a := by
          rw [← Nat.pow_add, Nat.sub_add_cancel hab.le]
        have hfirst := Cursor.rank_div_lt (n := b) (by omega) cursor
        have hnodup := Cursor.nodup_map_bucketAt (n := b) (by omega) List.nodup_range'
          fun j hj => hsplit ▸ Cursor.lt_of_mem_row (Nat.two_pow_pos _) (hsplit ▸ hfirst) hj
        have hpair := hnodup.map (f := fun i => (large, i)) fun i j hij => congrArg Prod.snd hij
        rwa [List.map_map] at hpair

/-- **What such buckets hold** has no handle twice. -/
theorem Shape.nodup_flatMap_chainAt (hd : d.Shape) {buckets : List Cursor.Bucket}
    (hb : buckets.Nodup) : ((buckets.flatMap d.chainAt).map (·.id)).Nodup := by
  rw [List.map_flatMap, List.nodup_flatMap]
  refine ⟨fun b _ => Buckets.nodup_chain (hd.nodup_side b.1) b.2, hb.imp ?_⟩
  intro b b' hne id hid hid'
  obtain ⟨x, hx, rfl⟩ := List.mem_map.mp hid
  obtain ⟨y, hy, he⟩ := List.mem_map.mp hid'
  obtain ⟨hside, hindex⟩ := hd.place_unique hx hy he.symm
  exact hne (Prod.ext hside hindex)

end Dictionary

/-! ## Bucket by bucket -/

/-- How a turn went, for a dictionary as it was before the whole scan and as it is after it. -/
structure BucketTurn.Went (turn : BucketTurn κ ν) (h : τ → Handling κ ν τ)
    (d d' : Dictionary κ ν) : Prop where
  /-- The bucket was handled as it was before, and visited as the handling left it. -/
  handled : ∃ s, turn.calls = ((h s).run (d.chainAt turn.bucket)).calls ∧
    turn.visits = ((h s).run (d.chainAt turn.bucket)).chain
  /-- Nothing came to the bucket later. -/
  left : d'.chainAt turn.bucket = turn.visits

namespace Dictionary

variable {d d' : Dictionary κ ν} (h : τ → Handling κ ν τ) (visit : τ → Binding κ ν → τ)

/-- **Bucket by bucket.** -/
theorem went_handBuckets {buckets : List Cursor.Bucket} : ∀ (s : τ) (d : Dictionary κ ν),
    buckets.Nodup →
      d.SameBut buckets (d.handBuckets h visit buckets s).2.2 ∧
      (d.handBuckets h visit buckets s).1.map (·.bucket) = buckets ∧
      ∀ turn ∈ (d.handBuckets h visit buckets s).1,
        turn.Went h d (d.handBuckets h visit buckets s).2.2 := by
  -- induction on the buckets still to come, of which none is the one at hand
  induction buckets with
  | nil => exact fun s d _ => ⟨.refl _ _, rfl, fun _ hturn => absurd hturn List.not_mem_nil⟩
  | cons b buckets ih =>
    intro s d hnodup
    obtain ⟨hb, hrest⟩ := List.nodup_cons.mp hnodup
    have hlabels := (h s).map_label_run (d.chainAt b)
    have hfirst := d.sameBut_setChain hlabels
    have hself := d.chainAt_setChain_self hlabels
    rw [handBuckets]
    generalize d.setChain b ((h s).run (d.chainAt b)).chain = d₁ at hfirst hself ⊢
    dsimp only
    rw [hself]
    obtain ⟨hsame, hbuckets, hwent⟩ :=
      ih (((h s).run (d.chainAt b)).chain.foldl visit ((h s).run (d.chainAt b)).state) d₁ hrest
    refine ⟨?_, congrArg (b :: ·) hbuckets, ?_⟩
    · exact (hfirst.mono (by simp)).trans (hsame.mono (List.subset_cons_self _ _))
    · intro turn hturn
      rcases List.mem_cons.mp hturn with rfl | hturn
      · exact ⟨⟨s, rfl, rfl⟩, (hsame.outside b hb).trans hself⟩
      · have hmem : turn.bucket ∈ buckets := hbuckets ▸ List.mem_map_of_mem hturn
        have hearlier : d₁.chainAt turn.bucket = d.chainAt turn.bucket :=
          hfirst.outside _ fun he => hb (List.mem_singleton.mp he ▸ hmem)
        obtain ⟨hhandled, hleft⟩ := hwent turn hturn
        exact ⟨hearlier ▸ hhandled, hleft⟩

end Dictionary

/-- What a scan with a bucket function owes to one that only reads. -/
structure BucketScan.Refines (r : BucketScan κ ν τ) (h : τ → Handling κ ν τ)
    (d : Dictionary κ ν) (cursor : UInt64) : Prop where
  next : r.next = (d.scan cursor).2
  /-- The same entries are visited in the same order, with the values that they have then. -/
  labels : r.visits.map Binding.label = (d.scan cursor).1.map Binding.label
  values : r.visits = (r.dictionary.scan cursor).1
  /-- Each bucket under the cursor has a turn, and one only. -/
  buckets : r.turns.map (·.bucket) = (d.cover cursor).1
  once : (d.cover cursor).1.Nodup
  went : ∀ turn ∈ r.turns, turn.Went h d r.dictionary
  /-- The calls in a turn answer for the visits that follow. -/
  fits : ∀ turn ∈ r.turns, ∀ call ∈ turn.calls, call.Fits turn.visits
  handles : (r.visits.map (·.id)).Nodup
  sameBut : d.SameBut (d.cover cursor).1 r.dictionary

namespace Dictionary

variable {d : Dictionary κ ν} (h : τ → Handling κ ν τ) (visit : τ → Binding κ ν → τ)

/-- **A scan with a bucket function refines one that reads.** -/
theorem Shape.refines_scan (hd : d.Shape) (s : τ) (cursor : UInt64) :
    (d.scanBuckets h visit s cursor).Refines h d cursor := by
  have hnodup := hd.nodup_cover cursor
  have hscan : d.scanBuckets h visit s cursor =
      ⟨(d.handBuckets h visit (d.cover cursor).1 s).1, (d.cover cursor).2,
        (d.handBuckets h visit (d.cover cursor).1 s).2.1,
        (d.handBuckets h visit (d.cover cursor).1 s).2.2⟩ := rfl
  have hwent := d.went_handBuckets h visit s hnodup
  rw [hscan]
  generalize d.handBuckets h visit (d.cover cursor).1 s = r at hwent ⊢
  obtain ⟨turns, s', d'⟩ := r
  obtain ⟨hsame, hbuckets, hwent⟩ := hwent
  dsimp only at hsame hbuckets hwent ⊢
  -- what is visited is what the buckets hold at the end, under the labels that were there before
  have hvisits : turns.flatMap (·.visits) = (d.cover cursor).1.flatMap d'.chainAt := by
    rw [← hbuckets, List.flatMap_map]
    exact List.flatMap_congr fun turn hturn => (hwent turn hturn).left.symm
  have hlabels : (turns.flatMap (·.visits)).map Binding.label =
      ((d.cover cursor).1.flatMap d.chainAt).map Binding.label := by
    rw [hvisits, List.map_flatMap, List.map_flatMap]
    exact List.flatMap_congr fun b _ => (hsame.labels b.1).chain b.2
  refine ⟨rfl, hlabels, ?_, hbuckets, hnodup, hwent, ?_, ?_, hsame⟩
  · rw [BucketScan.visits, hvisits, scan, hsame.cover]
  · intro turn hturn call hcall
    obtain ⟨s', hcalls, hleft⟩ := (hwent turn hturn).handled
    rw [hcalls] at hcall
    rw [hleft]
    exact ((h s').fits_run _ call hcall).congr ((h s').map_label_run _)
  · exact map_id_of_label hlabels ▸ hd.nodup_flatMap_chainAt hnodup

/-! ## The running scan -/

/-- A bucket function that makes a single pass. -/
def passing (f : τ → κ → Value ν → Value ν × τ) (s : τ) : Handling κ ν τ := .forEach f s .done

theorem reviseBuckets_eq (f : τ → κ → Value ν → Value ν × τ) {buckets : List Cursor.Bucket} :
    ∀ (before : List (List (Binding κ ν))) (s : τ) (d : Dictionary κ ν),
      reviseBuckets f before buckets s d =
        (before.reverse ++
            (d.handBuckets (passing f) (fun s _ => s) buckets s).1.map (·.visits),
          (d.handBuckets (passing f) (fun s _ => s) buckets s).2) := by
  induction buckets with
  | nil =>
    intro before s d
    rw [reviseBuckets, handBuckets, List.map_nil, List.append_nil]
  | cons b buckets ih =>
    intro before s d
    have hself := d.chainAt_setChain_self (map_label_reviseChain f (d.chainAt b) s)
    have hrun : (passing f s).run (d.chainAt b) =
        ⟨[.forEach ((d.chainAt b).map Binding.pair)], (reviseChain f s (d.chainAt b)).2,
          (reviseChain f s (d.chainAt b)).1⟩ := rfl
    rw [reviseBuckets, handBuckets, hrun]
    dsimp only
    rw [List.foldl_fixed, hself, ih, List.reverse_cons, List.append_assoc]
    rfl

/-- **The running scan that revises** is the one whose bucket function makes a single pass. -/
theorem scanRevising_eq (f : τ → κ → Value ν → Value ν × τ) (s : τ) (d : Dictionary κ ν)
    (cursor : UInt64) :
    d.scanRevising f s cursor =
      let r := d.scanBuckets (passing f) (fun s _ => s) s cursor
      (⟨r.turns.map (·.visits), r.next, r.state⟩, r.dictionary) := by
  rw [scanRevising]
  dsimp only
  rw [reviseBuckets_eq]
  rfl

/-! What any bucket function leaves, a single pass could have left that is told all the values. So
the operations of a history come to every dictionary that bucket functions come to. -/

/-- Gives the entries that it comes to the values of a list, one after the other. -/
def supply : List (Value ν) → κ → Value ν → Value ν × List (Value ν)
  | [], _, v => (v, [])
  | v :: vs, _, _ => (v, vs)

theorem reviseChain_supply {c : List (Binding κ ν)} : ∀ {c' : List (Binding κ ν)}
    (more : List (Value ν)), c'.map Binding.label = c.map Binding.label →
      reviseChain supply (c'.map (·.value) ++ more) c = (c', more) := by
  induction c with
  | nil =>
    intro c' more hlabels
    rw [List.map_eq_nil_iff.mp hlabels]
    rfl
  | cons b c ih =>
    intro c' more hlabels
    obtain ⟨b', c', rfl, hb, hc⟩ := List.map_eq_cons_iff.mp hlabels
    obtain ⟨hid, hkey⟩ := Prod.mk.inj hb
    rw [List.map_cons, List.cons_append, reviseChain, supply]
    dsimp only
    rw [ih more hc, ← hid, ← hkey]

theorem reviseBuckets_supply (buckets : List Cursor.Bucket) :
    ∀ (before : List (List (Binding κ ν))) (more : List (Value ν)) (s : τ) (d : Dictionary κ ν),
      (reviseBuckets supply before buckets
          (((d.handBuckets h visit buckets s).1.flatMap (·.visits)).map (·.value) ++ more) d).2.2 =
        (d.handBuckets h visit buckets s).2.2 := by
  induction buckets with
  | nil => exact fun _ _ _ _ => rfl
  | cons b buckets ih =>
    intro before more s d
    have hlabels := (h s).map_label_run (d.chainAt b)
    have hself := d.chainAt_setChain_self hlabels
    rw [handBuckets]
    dsimp only
    rw [hself, List.flatMap_cons, List.map_append, List.append_assoc, reviseBuckets]
    dsimp only
    rw [reviseChain_supply _ hlabels]
    exact ih _ more _ _

theorem scanRevising_supply (s : τ) (d : Dictionary κ ν) (cursor : UInt64) :
    (d.scanRevising supply
        ((d.scanBuckets h visit s cursor).visits.map (·.value)) cursor).2 =
      (d.scanBuckets h visit s cursor).dictionary := by
  have hall := reviseBuckets_supply h visit (d.cover cursor).1 [] [] s d
  rw [List.append_nil] at hall
  exact hall

end Dictionary

end TwinTable
