/-
Comings alone and goings alone are always noticed.

The fingerprint of a dictionary is mixed from six words: number, size and fill of both arrays. If
one of them only is another, so is the fingerprint. That is what happens while entries only come,
and only to one of the arrays, or while they only go from one: its fill goes up, or down, and the
other five words stay (`Fills`). So an unsafe walk that is handed back then faults exactly if an
entry has come or gone at all. Nothing has to be assumed about how the words are mixed.

Fills are counted in words. They have to be counts that a word can hold, since no change of a
multiple of 2^64 would show.
-/
import TwinTable.Proofs.Dictionary.HeldLayout
import TwinTable.Proofs.Dictionary.UnsafeWalks
import TwinTable.Proofs.Hash.Mixing

set_option autoImplicit false

namespace TwinTable

variable {κ ν : Type}

/-- Of the words of an array that stays the same one only the last can be another. -/
theorem Buckets.Same.fingerprintWords {b b' : Buckets κ ν} (h : b.Same b') :
    b'.fingerprintWords = [b.identity.toUInt64, b.size.toUInt64, b'.used.toUInt64] := by
  rw [Buckets.fingerprintWords, h.identity, h.size]

namespace Dictionary

variable {d d' d'' : Dictionary κ ν} {t : Side}

/-! ## The six words -/

/-- The words that a fingerprint is mixed from. -/
def fingerprintWords (d : Dictionary κ ν) : List UInt64 :=
  d.main.fingerprintWords ++ d.target.fingerprintWords

theorem length_fingerprintWords (d : Dictionary κ ν) : d.fingerprintWords.length = 6 := rfl

theorem fingerprint_eq_ofWords (d : Dictionary κ ν) :
    d.fingerprint = Fingerprint.ofWords d.fingerprintWords := rfl

/-- Where at most the fill of one array has changed, the fingerprint tells the word of that
fill. -/
theorem fingerprint_eq_iff_used (hsame : ∀ s, (d.side s).Same (d'.side s))
    (hother : ∀ s, s ≠ t → (d'.side s).used = (d.side s).used) :
    d'.fingerprint = d.fingerprint ↔
      (d'.side t).used.toUInt64 = (d.side t).used.toUInt64 := by
  have hmain : d.main.Same d'.main := hsame .main
  have htarget : d.target.Same d'.target := hsame .target
  have hsplit : ∃ before after,
      d.fingerprintWords = before ++ (d.side t).used.toUInt64 :: after ∧
        d'.fingerprintWords = before ++ (d'.side t).used.toUInt64 :: after := by
    cases t with
    | main =>
      have hused : d'.target.used = d.target.used := hother .target (by decide)
      refine ⟨[d.main.identity.toUInt64, d.main.size.toUInt64], d.target.fingerprintWords, rfl, ?_⟩
      rw [fingerprintWords, hmain.fingerprintWords, htarget.fingerprintWords, hused]
      rfl
    | target =>
      have hused : d'.main.used = d.main.used := hother .main (by decide)
      refine ⟨d.main.fingerprintWords ++ [d.target.identity.toUInt64, d.target.size.toUInt64], [],
        rfl, ?_⟩
      rw [fingerprintWords, hmain.fingerprintWords, htarget.fingerprintWords, hused]
      rfl
  obtain ⟨before, after, hwords, hwords'⟩ := hsplit
  rw [fingerprint_eq_ofWords, fingerprint_eq_ofWords, hwords, hwords']
  exact (Fingerprint.ofWords_bijective before after).injective.eq_iff

/-! ## Entries that only come -/

/-- From one moment to a later one, entries have only come, and only to one of the two places:
all arrays are the same ones, each chain of the one in that place has the entries that it had, in
their order, and the chains of the other one have not changed. -/
structure Fills (t : Side) (d d' : Dictionary κ ν) : Prop where
  same : ∀ s, (d.side s).Same (d'.side s)
  kept : ∀ s i, List.Sublist (d.labelsAt s i) (d'.labelsAt s i)
  other : ∀ s, s ≠ t → ∀ i, d'.labelsAt s i = d.labelsAt s i

namespace Fills

theorem refl (t : Side) (d : Dictionary κ ν) : Fills t d d :=
  ⟨fun _ => .refl _, fun _ _ => .refl _, fun _ _ _ => rfl⟩

theorem trans (h : Fills t d d') (h' : Fills t d' d'') : Fills t d d'' where
  same s := (h.same s).trans (h'.same s)
  kept s i := (h.kept s i).trans (h'.kept s i)
  other s hs i := (h'.other s hs i).trans (h.other s hs i)

/-- There is nothing to look at but the buckets that there are. -/
theorem iff_of_buckets : Fills t d d' ↔ ∀ s ∈ [Side.main, .target],
    (d'.side s).identity = (d.side s).identity ∧ (d'.side s).size = (d.side s).size ∧
      ∀ i < (d.side s).size, List.Sublist (d.labelsAt s i) (d'.labelsAt s i) ∧
        (s ≠ t → d'.labelsAt s i = d.labelsAt s i) := by
  constructor
  · intro h s _
    exact ⟨(h.same s).identity, (h.same s).size, fun i _ => ⟨h.kept s i, fun hs => h.other s hs i⟩⟩
  · intro h
    have hside : ∀ s, s ∈ [Side.main, .target] := fun s => by cases s <;> decide
    have hchain : ∀ s i, List.Sublist (d.labelsAt s i) (d'.labelsAt s i) ∧
        (s ≠ t → d'.labelsAt s i = d.labelsAt s i) := by
      intro s i
      obtain ⟨-, hsize, hbuckets⟩ := h s (hside s)
      by_cases hi : i < (d.side s).size
      · exact hbuckets i hi
      · rw [labelsAt, labelsAt, Buckets.chain_eq_nil (by omega), Buckets.chain_eq_nil (by omega)]
        exact ⟨.refl _, fun _ => rfl⟩
    exact ⟨fun s => ⟨(h s (hside s)).1, (h s (hside s)).2.1⟩, fun s i => (hchain s i).1,
      fun s hs i => (hchain s i).2 hs⟩

instance [DecidableEq κ] : Decidable (Fills t d d') := decidable_of_iff _ iff_of_buckets.symm

theorem length_chain_le (h : Fills t d d') (s : Side) (i : Nat) :
    ((d.side s).chain i).length ≤ ((d'.side s).chain i).length := by
  simpa only [labelsAt, List.length_map] using (h.kept s i).length_le

/-- No array becomes less full. -/
theorem used_le (h : Fills t d d') (hd : d.Shape) (hd' : d'.Shape) (s : Side) :
    (d.side s).used ≤ (d'.side s).used := by
  rw [(hd.side s).counted, (hd'.side s).counted, Buckets.length_toList, Buckets.length_toList,
    (h.same s).size]
  exact Finset.sum_le_sum fun i _ => h.length_chain_le s i

/-- The other array stays as full as it is. -/
theorem used_other (h : Fills t d d') (hd : d.Shape) (hd' : d'.Shape) {s : Side} (hs : s ≠ t) :
    (d'.side s).used = (d.side s).used := by
  refine (hd.side s).used_congr (hd'.side s) fun i => ?_
  have hlabels := congrArg List.length (h.other s hs i)
  simpa only [labelsAt, List.length_map] using hlabels

theorem size_le (h : Fills t d d') (hd : d.Shape) (hd' : d'.Shape) : d.size ≤ d'.size :=
  Nat.add_le_add (h.used_le hd hd' .main) (h.used_le hd hd' .target)

/-- All that comes is in the one array. -/
theorem size_eq_iff (h : Fills t d d') (hd : d.Shape) (hd' : d'.Shape) :
    d'.size = d.size ↔ (d'.side t).used = (d.side t).used := by
  cases t with
  | main =>
    have hother : d'.target.used = d.target.used :=
      h.used_other hd hd' (s := .target) (by decide)
    rw [Dictionary.size, Dictionary.size, hother]
    exact Nat.add_right_cancel_iff
  | target =>
    have hother : d'.main.used = d.main.used :=
      h.used_other hd hd' (s := .main) (by decide)
    rw [Dictionary.size, Dictionary.size, hother]
    exact Nat.add_left_cancel_iff

/-- **Whatever comes shows**, as long as the entries can be counted in a word. -/
theorem fingerprint_eq_iff (h : Fills t d d') (hd : d.Shape) (hd' : d'.Shape)
    (hfits : d'.size < UInt64.size) : d'.fingerprint = d.fingerprint ↔ d'.size = d.size := by
  have hle := h.used_le hd hd' t
  have hlt : (d'.side t).used < UInt64.size := by
    refine Nat.lt_of_le_of_lt ?_ hfits
    cases t with
    | main => exact Nat.le_add_right _ _
    | target => exact Nat.le_add_left _ _
  have hword : ∀ n, n < UInt64.size → n.toUInt64.toNat = n := fun n hn =>
    UInt64.toNat_ofNat_of_lt' hn
  rw [fingerprint_eq_iff_used h.same fun s hs => h.used_other hd hd' hs, h.size_eq_iff hd hd',
    ← UInt64.toNat_inj, hword _ hlt, hword _ (Nat.lt_of_le_of_lt hle hlt)]

end Fills

/-- To hand back an unsafe walk faults exactly if the fingerprint is another now. -/
theorem endWalk_eq_error_iff {w : Walk} (h : w.isSafe = false) (d : Dictionary κ ν) :
    (d.endWalk w).1 = .error (.changedUnderWalk w.fingerprint d.fingerprint) ↔
      d.fingerprint ≠ w.fingerprint := by
  rw [endWalk, if_neg (by simp [h])]
  split <;> simp [*]

end Dictionary

/-! ## Rows of operations that only let entries come, or only let them go -/

namespace Walk

/-- A walk that was asked for its next entry any number of times, whatever the dictionary was each
time. -/
abbrev Asked (κ ν : Type) : Walk → Walk → Prop :=
  Relation.ReflTransGen fun w w' => ∃ d : Dictionary κ ν, w' = (w.next d).2

theorem Asked.keeps {w w' : Walk} (h : Asked κ ν w w') :
    w'.isSafe = w.isSafe ∧ w'.fingerprint = w.fingerprint := by
  induction h with
  | refl => exact ⟨rfl, rfl⟩
  | tail _ hnext ih =>
    obtain ⟨d, rfl⟩ := hnext
    exact ⟨(next_keeps _ d).1.trans ih.1, (next_keeps _ d).2.trans ih.2⟩

end Walk

namespace Situation

variable {σ : Type} (K : Keying κ ν) (g : WordSource σ)

open Dictionary

/-- With each operation of the row entries only come, and only to one place. -/
def OnlyFills (t : Side) (s : Situation κ ν σ) (ops : List (Operation κ ν)) : Prop :=
  (s.passed K g ops).IsChain fun a b => Fills t a.dictionary b.dictionary

/-- With each operation of the row entries only go, and only from one place. -/
def OnlyDrains (t : Side) (s : Situation κ ν σ) (ops : List (Operation κ ν)) : Prop :=
  (s.passed K g ops).IsChain fun a b => Fills t b.dictionary a.dictionary

instance [DecidableEq κ] (t : Side) (s : Situation κ ν σ) (ops : List (Operation κ ν)) :
    Decidable (OnlyFills K g t s ops) :=
  inferInstanceAs (Decidable (List.IsChain _ _))

instance [DecidableEq κ] (t : Side) (s : Situation κ ν σ) (ops : List (Operation κ ν)) :
    Decidable (OnlyDrains K g t s ops) :=
  inferInstanceAs (Decidable (List.IsChain _ _))

theorem head?_passed (s : Situation κ ν σ) (ops : List (Operation κ ν)) :
    (s.passed K g ops).head? = some s := by
  cases ops <;> rfl

/-- What relates each situation of a row to the next one relates the first to every one and every
one to the last, if it is reflexive and transitive. -/
theorem related_of_isChain_passed {R : Dictionary κ ν → Dictionary κ ν → Prop} (hrefl : ∀ d, R d d)
    (htrans : ∀ {d d' d''}, R d d' → R d' d'' → R d d'') (ops : List (Operation κ ν)) :
    ∀ {s : Situation κ ν σ},
      (s.passed K g ops).IsChain (fun a b => R a.dictionary b.dictionary) →
        ∀ u ∈ s.passed K g ops, R s.dictionary u.dictionary ∧
          R u.dictionary (s.after K g ops).dictionary := by
  -- induction on the row, from the front, as `after` and `passed` take it
  induction ops with
  | nil =>
    intro s _ u hu
    rw [List.mem_singleton.mp hu]
    exact ⟨hrefl _, hrefl _⟩
  | cons op ops ih =>
    intro s hchain u hu
    obtain ⟨hfirst, hrest⟩ := List.isChain_cons.mp hchain
    have hstep := hfirst _ (head?_passed K g _ ops)
    rcases List.mem_cons.mp hu with rfl | hu
    · exact ⟨hrefl _, htrans hstep (ih hrest _ (mem_passed K g _ ops)).2⟩
    · exact ⟨htrans hstep (ih hrest u hu).1, (ih hrest u hu).2⟩

theorem shape_passed : ∀ (ops : List (Operation κ ν)) {s : Situation κ ν σ}, s.dictionary.Shape →
    ∀ u ∈ s.passed K g ops, u.dictionary.Shape := by
  intro ops
  induction ops with
  | nil => intro s hs u hu; exact List.mem_singleton.mp hu ▸ hs
  | cons op ops ih =>
    intro s hs u hu
    rcases List.mem_cons.mp hu with rfl | hu
    · exact hs
    · exact ih (hs.changes (changes_perform K g hs op)) u hu

theorem after_mem_passed (ops : List (Operation κ ν)) : ∀ s : Situation κ ν σ,
    s.after K g ops ∈ s.passed K g ops := by
  induction ops with
  | nil => exact fun s => List.mem_singleton_self s
  | cons op ops ih => exact fun s => List.mem_cons_of_mem _ (ih _)

variable {K g} {s : Situation κ ν σ} {t : Side} {ops : List (Operation κ ν)}

/-- While entries only come or only go, the fingerprint stays exactly as long as there are as
many. -/
theorem fingerprint_after_eq_iff (oneWay : OnlyFills K g t s ops ∨ OnlyDrains K g t s ops)
    (hs : s.dictionary.Shape)
    (hfits : ∀ u ∈ s.passed K g ops, u.dictionary.size < UInt64.size) :
    (s.after K g ops).dictionary.fingerprint = s.dictionary.fingerprint ↔
      ∀ u ∈ s.passed K g ops, u.dictionary.size = s.dictionary.size := by
  have hlast := after_mem_passed K g ops s
  have hshape := shape_passed K g ops hs
  have hbetween : ∀ u ∈ s.passed K g ops,
      Fills t s.dictionary u.dictionary ∧ Fills t u.dictionary (s.after K g ops).dictionary ∨
        Fills t u.dictionary s.dictionary ∧ Fills t (s.after K g ops).dictionary u.dictionary := by
    intro u hu
    rcases oneWay with hfills | hdrains
    · exact .inl (related_of_isChain_passed K g (.refl t) .trans ops hfills u hu)
    · exact .inr (related_of_isChain_passed K g (R := fun d d' => Fills t d' d) (.refl t)
        (fun h h' => h'.trans h) ops hdrains u hu)
  have hends : (s.after K g ops).dictionary.fingerprint = s.dictionary.fingerprint ↔
      (s.after K g ops).dictionary.size = s.dictionary.size := by
    rcases hbetween _ hlast with ⟨h, -⟩ | ⟨h, -⟩
    · exact h.fingerprint_eq_iff hs (hshape _ hlast) (hfits _ hlast)
    · rw [eq_comm, h.fingerprint_eq_iff (hshape _ hlast) hs (hfits s (mem_passed K g s ops)),
        eq_comm]
  rw [hends]
  refine ⟨fun heq u hu => ?_, fun hsizes => hsizes _ hlast⟩
  -- the number of entries in between is between the first and the last one
  rcases hbetween u hu with ⟨h, h'⟩ | ⟨h, h'⟩
  · have hle := h.size_le hs (hshape u hu)
    have hle' := h'.size_le (hshape u hu) (hshape _ hlast)
    omega
  · have hle := h.size_le (hshape u hu) hs
    have hle' := h'.size_le (hshape _ hlast) (hshape u hu)
    omega

variable (K g)

/-- **A single change shows.** A round of mixing permutes the hashes, whatever word is mixed in,
and it tells any two words, whatever the hash was. So two rows of words of which one only is
another have different fingerprints, and so have two dictionaries of which one only of the numbers,
sizes and fills of both arrays is another.

Let an unsafe walk begin in any situation that a new dictionary can come to, and let it be asked
for entries any number of times, while entries only come and only to one place, or only go and
only from one place. To hand it back faults exactly if there was a moment at which there were
not as many entries as when it began. Only the count of the entries has to fit into a word all
along, as it does in every memory. -/
theorem single_change_shows :
    (∀ part, Function.Bijective fun hash => Fingerprint.mix hash part) ∧
    (∀ hash, Function.Injective (Fingerprint.mix hash)) ∧
    (∀ parts parts' : List UInt64, parts.length = parts'.length →
      (∃! i : Nat, parts[i]? ≠ parts'[i]?) →
        Fingerprint.ofWords parts ≠ Fingerprint.ofWords parts') ∧
    (∀ d d' : Dictionary κ ν, (∃! i : Nat, d.fingerprintWords[i]? ≠ d'.fingerprintWords[i]?) →
      d.fingerprint ≠ d'.fingerprint) ∧
    ∀ (settings : Settings) (words : σ) (earlier ops : List (Operation κ ν)) (t : Side) (w : Walk),
      let before := (start settings words).after K g earlier
      let now := before.after K g ops
      (OnlyFills K g t before ops ∨ OnlyDrains K g t before ops) →
      (∀ u ∈ before.passed K g ops, u.dictionary.size < UInt64.size) →
      Walk.Asked κ ν before.dictionary.walk w →
        ((now.dictionary.endWalk w).1 = .error
            (.changedUnderWalk before.dictionary.fingerprint now.dictionary.fingerprint) ↔
          ∃ u ∈ before.passed K g ops, u.dictionary.size ≠ before.dictionary.size) := by
  refine ⟨Fingerprint.mix_bijective_left, fun hash => (Fingerprint.mix_bijective_right hash).1,
    fun _ _ => Fingerprint.ofWords_ne_of_existsUnique, fun d d' =>
      Fingerprint.ofWords_ne_of_existsUnique
        (d.length_fingerprintWords.trans d'.length_fingerprintWords.symm), ?_⟩
  intro settings words earlier ops t w before now oneWay fits asked
  have hshape : before.dictionary.Shape := shape_after K g settings words earlier
  have hmeans : now.dictionary.fingerprint = before.dictionary.fingerprint ↔
      ∀ u ∈ before.passed K g ops, u.dictionary.size = before.dictionary.size :=
    fingerprint_after_eq_iff oneWay hshape fits
  obtain ⟨hsafe, hfingerprint⟩ := asked.keeps
  have hends := endWalk_eq_error_iff hsafe now.dictionary
  have hbegan : w.fingerprint = before.dictionary.fingerprint := hfingerprint
  rw [hbegan] at hends
  rw [hends, Ne, hmeans]
  simp only [not_forall, exists_prop, Ne]

/-- Five entries are on the move, and a safe walk that is open holds them where they are. While a
key is found, another one comes and a third is refused, the target only fills; while two keys of
the main array go, that one only drains. In both cases one of the six words has changed, and an
unsafe walk that returned an entry before faults. -/
theorem single_change_shows_under_safe_walk :
    let before := (start .standard 0).after (Keying.numbers String) WordSource.splitMix
      [.add 0 "a", .add 1 "b", .add 2 "c", .add 3 "d", .add 4 "e", .safeWalk]
    let w := (before.dictionary.walk.next before.dictionary).2
    let more : List (Operation UInt64 String) := [.find 0 id, .add 5 "f", .add 0 "again"]
    let fewer : List (Operation UInt64 String) := [.delete 1, .find 4 id, .unlink 3]
    let filled := before.after (Keying.numbers String) WordSource.splitMix more
    let drained := before.after (Keying.numbers String) WordSource.splitMix fewer
    OnlyFills (Keying.numbers String) WordSource.splitMix .target before more ∧
      OnlyDrains (Keying.numbers String) WordSource.splitMix .main before fewer ∧
      (∃! i : Nat, before.dictionary.fingerprintWords[i]? ≠
        filled.dictionary.fingerprintWords[i]?) ∧
      before.dictionary.fingerprint ≠ filled.dictionary.fingerprint ∧
      (∃! i : Nat, before.dictionary.fingerprintWords[i]? ≠
        drained.dictionary.fingerprintWords[i]?) ∧
      Fingerprint.ofWords before.dictionary.fingerprintWords ≠
        Fingerprint.ofWords drained.dictionary.fingerprintWords ∧
      ∀ now ∈ [filled, drained], (now.dictionary.endWalk w).1 = .error
        (.changedUnderWalk before.dictionary.fingerprint now.dictionary.fingerprint) := by
  intro before w more fewer filled drained
  have hfills : OnlyFills (Keying.numbers String) WordSource.splitMix .target before more := by
    decide +kernel
  have hdrains : OnlyDrains (Keying.numbers String) WordSource.splitMix .main before fewer := by
    decide +kernel
  obtain ⟨-, -, hrows, hdictionaries, hrun⟩ :=
    single_change_shows (Keying.numbers String) WordSource.splitMix
  have honce : ∀ {d d' : Dictionary UInt64 String} (i : Nat),
      d.fingerprintWords[i]? ≠ d'.fingerprintWords[i]? →
      (∀ j < 6, d.fingerprintWords[j]? ≠ d'.fingerprintWords[j]? → j = i) →
        ∃! i : Nat, d.fingerprintWords[i]? ≠ d'.fingerprintWords[i]? := by
    intro d d' i hi hothers
    have hlength := d.length_fingerprintWords.trans d'.length_fingerprintWords.symm
    exact ⟨i, hi, fun j hj => hothers j (Fingerprint.lt_length_of_getElem?_ne hlength hj) hj⟩
  have hfilled : ∃! i : Nat, before.dictionary.fingerprintWords[i]? ≠
      filled.dictionary.fingerprintWords[i]? := honce 5 (by decide +kernel) (by decide +kernel)
  have hdrained : ∃! i : Nat, before.dictionary.fingerprintWords[i]? ≠
      drained.dictionary.fingerprintWords[i]? := honce 2 (by decide +kernel) (by decide +kernel)
  have hasked : Walk.Asked UInt64 String before.dictionary.walk w :=
    .single ⟨before.dictionary, rfl⟩
  have hmore := hrun .standard 0 _ more .target w (.inl hfills) (by decide +kernel) hasked
  have hfewer := hrun .standard 0 _ fewer .main w (.inr hdrains) (by decide +kernel) hasked
  have hlength := before.dictionary.length_fingerprintWords.trans
    drained.dictionary.length_fingerprintWords.symm
  refine ⟨hfills, hdrains, hfilled, hdictionaries _ _ hfilled, hdrained,
    hrows _ _ hlength hdrained, ?_⟩
  simp only [List.forall_mem_cons]
  exact ⟨hmore.mpr (by decide +kernel), hfewer.mpr (by decide +kernel), by simp⟩

end Situation

end TwinTable
