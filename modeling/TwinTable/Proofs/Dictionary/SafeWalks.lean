/-
A safe walk misses no entry that stays, and returns none twice without need.

Between two steps of a walk anything may be done to the dictionary, as long as the walk
stays open. What was there before and still is keeps its place (`Stays`), and so it keeps
its place in the list that the walk has before it: of the entries to come none gets lost
that is still there (`mem_toCome_of_left`). Every step takes the head off that list and
returns it. So each entry that stays is either to come or was returned, and when nothing is
to come, all of them were returned.

The list can also grow, by new entries and by old ones. Old ones come back only when the
entry to return next is taken out, since its bucket is entered once more then
(`mem_toCome_of_old`). That does not happen to those who take out nothing but the entry
that was returned last: it is not to come any more.
-/
import TwinTable.Proofs.Dictionary.Filing
import TwinTable.Proofs.Dictionary.Staying
import TwinTable.Proofs.Dictionary.WalkOrder

set_option autoImplicit false

namespace TwinTable

variable {κ ν : Type}

/-! ## What stays is where it was -/

namespace Dictionary

variable {d d' : Dictionary κ ν}

theorem Stays.mem_labelsAt_of_left (h : Stays d d') {s : Side} {i : Nat} {x : Nat × κ}
    (hx : x ∈ d.labelsAt s i) (hleft : x.1 ∈ d'.handles) : x ∈ d'.labelsAt s i := by
  have hmem : x ∈ (d.labelsAt s i).filter (·.1 ∈ d'.handles) :=
    List.mem_filter.mpr ⟨hx, decide_eq_true hleft⟩
  rw [← h.order] at hmem
  exact List.mem_of_mem_filter hmem

theorem Stays.mem_labelsAt_of_old (h : Stays d d') {s : Side} {i : Nat} {x : Nat × κ}
    (hx : x ∈ d'.labelsAt s i) (hold : x.1 < d.nextId) : x ∈ d.labelsAt s i := by
  have hmem : x ∈ (d'.labelsAt s i).filter (·.1 < d.nextId) :=
    List.mem_filter.mpr ⟨hx, decide_eq_true hold⟩
  rw [h.order] at hmem
  exact List.mem_of_mem_filter hmem

theorem Stays.mem_handles_of_old (h : Stays d d') {id : Nat} (hid : id ∈ d'.handles)
    (hold : id < d.nextId) : id ∈ d.handles := by
  obtain ⟨s, i, x, hx, rfl⟩ := mem_handles_iff_labelsAt.mp hid
  exact fst_mem_handles (h.mem_labelsAt_of_old hx hold)

/-- A key has one entry, and so one label. -/
theorem Sound.eq_label_of_same {K : Keying κ ν} {seed : Seed} (hK : K.Lawful)
    (hd : d.Sound K seed) {s : Side} {i : Nat} {x : Nat × κ} (hx : x ∈ d.labelsAt s i)
    {b : Binding κ ν} (hb : b ∈ d.toList) (hsame : K.same x.2 b.key = true) : x = b.label := by
  obtain ⟨y, hy, rfl⟩ := List.mem_map.mp hx
  have heq : y = b := hK.eq_of_same Binding.key hd.apart (mem_toList_of_mem_chain hy) hb
    (hK.same_self _) hsame
  rw [heq]

/-- **A key that stays keeps its entry.** No operation both takes an entry out and makes a
new one, so the entries that a key has before and after it are one and the same. -/
theorem Stays.label_eq_of_same {K : Keying κ ν} {seed : Seed} (hK : K.Lawful)
    (h : Stays d d') (hd : d.Sound K seed) (hd' : d'.Sound K seed) {b b' : Binding κ ν}
    (hb : b ∈ d.toList) (hb' : b' ∈ d'.toList) (hsame : K.same b'.key b.key = true) :
    b.label = b'.label := by
  rcases h.oneWay with hsub | hnone
  · -- nothing is taken out, so the old entry is still there
    obtain ⟨s, i, hi⟩ := mem_toList.mp hb
    have hleft := h.mem_labelsAt_of_left (List.mem_map_of_mem hi)
      (hsub (List.mem_map_of_mem hb))
    exact hd'.eq_label_of_same hK hleft hb' (hK.same_symm _ _ hsame)
  · -- nothing comes in, so the new entry was there before
    obtain ⟨s, i, hi⟩ := mem_toList.mp hb'
    have hold := h.mem_labelsAt_of_old (List.mem_map_of_mem hi) (hnone ▸ hd'.shape.issued b' hb')
    exact (hd.eq_label_of_same hK hold hb hsame).symm

end Dictionary

/-! ## What a walk has before it while entries come and go -/

/-- Up to something that passes a test, it makes no difference whether the others are taken
out before or after. -/
theorem dropWhile_filter {α : Type} {p q : α → Bool} : ∀ {l : List α},
    (∀ a ∈ l, q a = false → p a = true) →
      (l.filter p).dropWhile q = (l.dropWhile q).filter p := by
  intro l
  induction l with
  | nil => intro _; rfl
  | cons a l ih =>
    intro h
    have hrest := ih fun x hx => h x (List.mem_cons_of_mem _ hx)
    by_cases hq : q a = true
    · rw [List.dropWhile_cons_of_pos hq, ← hrest]
      by_cases hp : p a = true
      · rw [List.filter_cons_of_pos hp, List.dropWhile_cons_of_pos hq]
      · rw [List.filter_cons_of_neg hp]
    · have hp := h a List.mem_cons_self (by simpa using hq)
      rw [List.dropWhile_cons_of_neg hq, List.filter_cons_of_pos hp,
        List.dropWhile_cons_of_neg hq]

namespace Walk

open Dictionary

variable {d d' : Dictionary κ ν} {w : Walk}

/-- The buckets that a walk has not entered yet. -/
def Ahead (w : Walk) (s : Side) (i : Nat) : Prop :=
  (s = w.side ∧ w.index ≤ i) ∨ (w.side = .main ∧ s = .target)

theorem mem_label_toCome {x : Nat × κ} :
    x ∈ (w.toCome d).map Binding.label ↔
      x ∈ (w.current d).map Binding.label ∨ ∃ s i, w.Ahead s i ∧ x ∈ d.labelsAt s i := by
  rw [toCome, List.map_append, List.mem_append]
  refine or_congr Iff.rfl ?_
  rw [List.map_append, List.mem_append, List.mem_map, List.mem_map]
  constructor
  · rintro (⟨b, hb, rfl⟩ | ⟨b, hb, rfl⟩)
    · obtain ⟨i, hi, hb⟩ := Buckets.mem_listFrom.mp hb
      exact ⟨w.side, i, .inl ⟨rfl, hi⟩, List.mem_map_of_mem hb⟩
    · rcases hside : w.side with _ | _
      · rw [hside] at hb
        obtain ⟨i, hi⟩ := Buckets.mem_toList.mp hb
        exact ⟨.target, i, .inr ⟨hside, rfl⟩, List.mem_map_of_mem (f := Binding.label) hi⟩
      · rw [hside] at hb
        exact absurd hb List.not_mem_nil
  · rintro ⟨s, i, ⟨rfl, hi⟩ | ⟨hside, rfl⟩, hx⟩
    · obtain ⟨b, hb, rfl⟩ := List.mem_map.mp hx
      exact .inl ⟨b, Buckets.mem_listFrom.mpr ⟨i, hi, hb⟩, rfl⟩
    · obtain ⟨b, hb, rfl⟩ := List.mem_map.mp hx
      rw [hside]
      exact .inr ⟨b, Buckets.mem_toList.mpr ⟨i, hb⟩, rfl⟩

/-- If the entry to return next is there, its bucket is left from it on. -/
theorem label_current_of_mem (hw : w.Placed d) {u : Nat} (hup : w.upcoming = some u)
    (hu : u ∈ d.handles) : (w.current d).map Binding.label =
      (d.labelsAt w.side (w.index - 1)).dropWhile (·.1 ≠ u) := by
  obtain ⟨b, hb, rfl⟩ := List.mem_map.mp hu
  obtain ⟨s, i, hi⟩ := mem_toList.mp hb
  obtain ⟨rfl, rfl⟩ := (hw b.id hup).2.2 s i b hi rfl
  rw [current, hup]
  dsimp only
  rw [if_pos (List.mem_map_of_mem hi), labelsAt, List.dropWhile_map]
  rfl

/-- If it is gone, all of its bucket is left. -/
theorem label_current_of_notMem {u : Nat} (hup : w.upcoming = some u) (hu : u ∉ d.handles) :
    (w.current d).map Binding.label = d.labelsAt w.side (w.index - 1) := by
  have hgone : u ∉ ((d.side w.side).chain (w.index - 1)).map (·.id) := by
    intro hmem
    obtain ⟨b, hb, rfl⟩ := List.mem_map.mp hmem
    exact hu (mem_handles_of_side (Buckets.mem_handles_of_chain hb))
  rw [current, hup]
  dsimp only
  rw [if_neg hgone]
  rfl

/-- If the entry to return next is there, it is to come. -/
theorem exists_toCome_of_upcoming (hw : w.Placed d) {u : Nat} (hup : w.upcoming = some u)
    (hu : u ∈ d.handles) : ∃ b ∈ w.toCome d, b.id = u := by
  obtain ⟨b, hb, rfl⟩ := List.mem_map.mp hu
  obtain ⟨s, i, hi⟩ := mem_toList.mp hb
  obtain ⟨rfl, rfl⟩ := (hw b.id hup).2.2 s i b hi rfl
  refine ⟨b, ?_, rfl⟩
  rw [toCome, current, hup]
  dsimp only
  rw [if_pos (List.mem_map_of_mem hi)]
  refine List.mem_append_left _ ?_
  rw [← List.takeWhile_append_dropWhile (p := (·.id ≠ b.id)) (l := (d.side w.side).chain _)] at hi
  refine (List.mem_append.mp hi).resolve_left fun hfront => ?_
  simpa using List.mem_takeWhile_imp hfront

theorem Placed.stays (hw : w.Placed d) (h : Stays d d') : w.Placed d' := by
  intro u hup
  obtain ⟨hold, hindex, hplace⟩ := hw u hup
  refine ⟨Nat.lt_of_lt_of_le hold h.issued, hindex, ?_⟩
  rintro s i b hb rfl
  obtain ⟨x, hx, hlabel⟩ := List.mem_map.mp
    (h.mem_labelsAt_of_old (List.mem_map_of_mem hb) hold)
  exact hplace s i x hx (congrArg Prod.fst hlabel)

/-- While the entry to return next is there, what is left of its bucket has the old entries
that are still there, and no other old ones. -/
theorem filter_label_current (hw : w.Placed d) (h : Stays d d') {u : Nat}
    (hup : w.upcoming = some u) (hu : u ∈ d'.handles) :
    ((w.current d').map Binding.label).filter (·.1 < d.nextId) =
      ((w.current d).map Binding.label).filter (·.1 ∈ d'.handles) := by
  have hold : u < d.nextId := (hw u hup).1
  have hbefore := h.mem_handles_of_old hu hold
  rw [label_current_of_mem (hw.stays h) hup hu, label_current_of_mem hw hup hbefore,
    ← dropWhile_filter, ← dropWhile_filter, h.order]
  · intro x _ hx
    obtain rfl : x.1 = u := by simpa using hx
    exact decide_eq_true hu
  · intro x _ hx
    obtain rfl : x.1 = u := by simpa using hx
    exact decide_eq_true hold

/-- **Of what is to come, nothing gets lost** that is still there. -/
theorem mem_toCome_of_left (hw : w.Placed d) (h : Stays d d') {x : Nat × κ}
    (hx : x ∈ (w.toCome d).map Binding.label) (hleft : x.1 ∈ d'.handles) :
    x ∈ (w.toCome d').map Binding.label := by
  rw [mem_label_toCome] at hx ⊢
  rcases hx with hx | ⟨s, i, hahead, hx⟩
  · left
    rcases hup : w.upcoming with _ | u
    · rw [current, hup] at hx
      exact absurd hx List.not_mem_nil
    · by_cases hu : u ∈ d'.handles
      · have hmem : x ∈ ((w.current d).map Binding.label).filter (·.1 ∈ d'.handles) :=
          List.mem_filter.mpr ⟨hx, decide_eq_true hleft⟩
        rw [← filter_label_current hw h hup hu] at hmem
        exact List.mem_of_mem_filter hmem
      · -- the bucket is entered once more, with all that is in it
        rw [label_current_of_notMem hup hu]
        refine h.mem_labelsAt_of_left ?_ hleft
        by_cases hbefore : u ∈ d.handles
        · rw [label_current_of_mem hw hup hbefore] at hx
          exact (List.dropWhile_sublist _).subset hx
        · rwa [label_current_of_notMem hup hbefore] at hx
  · exact .inr ⟨s, i, hahead, h.mem_labelsAt_of_left hx hleft⟩

/-- **Nothing old comes back**, unless the entry to return next is taken out. -/
theorem mem_toCome_of_old (hw : w.Placed d) (h : Stays d d')
    (hkept : ∀ u, w.upcoming = some u → u ∈ d.handles → u ∈ d'.handles) {x : Nat × κ}
    (hx : x ∈ (w.toCome d').map Binding.label) (hold : x.1 < d.nextId) :
    x ∈ (w.toCome d).map Binding.label := by
  rw [mem_label_toCome] at hx ⊢
  rcases hx with hx | ⟨s, i, hahead, hx⟩
  · left
    rcases hup : w.upcoming with _ | u
    · rw [current, hup] at hx
      exact absurd hx List.not_mem_nil
    · by_cases hu : u ∈ d.handles
      · have hmem : x ∈ ((w.current d').map Binding.label).filter (·.1 < d.nextId) :=
          List.mem_filter.mpr ⟨hx, decide_eq_true hold⟩
        rw [filter_label_current hw h hup (hkept u hup hu)] at hmem
        exact List.mem_of_mem_filter hmem
      · have hgone : u ∉ d'.handles := fun hmem =>
          hu (h.mem_handles_of_old hmem (hw u hup).1)
        rw [label_current_of_notMem hup hgone] at hx
        rw [label_current_of_notMem hup hu]
        exact h.mem_labelsAt_of_old hx hold
  · exact .inr ⟨s, i, hahead, h.mem_labelsAt_of_old hx hold⟩

end Walk

/-! ## Walks with anything in between -/

namespace Situation

variable {σ : Type} (K : Keying κ ν) (g : WordSource σ)

open Dictionary

/-- A safe walk that begins in a situation, and whatever is done meanwhile: the situation now,
those that were passed since the walk began, where the walk stands, and what it returned, the
latest first. The walk is asked for its next entry at any time, and any operation may come
in between that does not give it back. In a *tidy* journey the operations take out
no entry but the one that was returned last. -/
inductive Journey (tidy : Bool) (first : Situation κ ν σ) : Situation κ ν σ →
    List (Situation κ ν σ) → Walk → List (Binding κ ν) → Prop
  | start : Journey tidy first (first.perform K g .safeWalk).2 [] first.dictionary.safeWalk.1 []
  | ask {s : Situation κ ν σ} {passed : List (Situation κ ν σ)} {w : Walk}
      {returned : List (Binding κ ν)} (before : Journey tidy first s passed w returned) :
      Journey tidy first s passed (w.next s.dictionary).2
        ((w.next s.dictionary).1.toList ++ returned)
  | call {s : Situation κ ν σ} {passed : List (Situation κ ν σ)} {w : Walk}
      {returned : List (Binding κ ν)} (before : Journey tidy first s passed w returned)
      (op : Operation κ ν) (spares : op.Spares s.dictionary)
      (tidily : tidy = true → ∀ id ∈ s.dictionary.handles,
        id ∉ (s.perform K g op).2.dictionary.handles →
          returned.head?.map (·.id) = some id) :
      Journey tidy first (s.perform K g op).2 (s :: passed) w returned

/-- The situation has a key. -/
def Has (s : Situation κ ν σ) (k : κ) : Prop :=
  ∃ b ∈ s.dictionary.toList, K.same k b.key = true

instance (s : Situation κ ν σ) (k : κ) : Decidable (s.Has K k) :=
  inferInstanceAs (Decidable (∃ b ∈ s.dictionary.toList, K.same k b.key = true))

/-- What is true all along a safe walk. -/
structure Underway (tidy : Bool) (s : Situation κ ν σ) (passed : List (Situation κ ν σ))
    (w : Walk) (returned : List (Binding κ ν)) : Prop where
  sound : s.dictionary.Sound K s.settings.seed
  counted : s.dictionary.walks ≠ 0
  placed : w.Placed s.dictionary
  /-- An entry whose key was there all the time is to come, or it was returned. -/
  covered : ∀ b ∈ s.dictionary.toList, (∀ t ∈ passed, t.Has K b.key) →
    b.label ∈ (w.toCome s.dictionary).map Binding.label ∨ b.label ∈ returned.map Binding.label
  /-- What was returned was returned once, and is not to come. -/
  once : tidy = true → (returned.map (·.id)).Nodup ∧ ∀ b ∈ returned,
    b.id < s.dictionary.nextId ∧ b.id ∉ (w.toCome s.dictionary).map (·.id)

namespace Underway

variable {K} {tidy : Bool} {s : Situation κ ν σ} {passed : List (Situation κ ν σ)} {w : Walk}
  {returned : List (Binding κ ν)}

theorem start (hK : K.Lawful) (hs : s.dictionary.Sound K s.settings.seed) :
    Underway K tidy (s.perform K g .safeWalk).2 [] s.dictionary.safeWalk.1 [] := by
  refine ⟨sound_perform g hK rfl hs .safeWalk, Nat.succ_ne_zero _,
    Walk.placed_of_upcoming_eq_none rfl, ?_, fun _ => ⟨List.nodup_nil, by simp⟩⟩
  intro b hb _
  left
  change b.label ∈ (s.dictionary.safeWalk.1.toCome s.dictionary.safeWalk.2).map Binding.label
  have hall : s.dictionary.safeWalk.1.toCome s.dictionary.safeWalk.2 = s.dictionary.toList :=
    Walk.toCome_of_start rfl rfl rfl s.dictionary.safeWalk.2
  rw [hall]
  exact List.mem_map_of_mem hb

/-- Asking moves the head of what is to come to what was returned. -/
theorem ask (h : Underway K tidy s passed w returned) :
    Underway K tidy s passed (w.next s.dictionary).2
      ((w.next s.dictionary).1.toList ++ returned) := by
  obtain ⟨hhead, htail, hplaced⟩ := Walk.next_eq h.sound.shape h.placed
  rcases hcome : w.toCome s.dictionary with _ | ⟨b, rest⟩
  · -- the walk has come to its end, and stays there
    rw [hcome] at hhead htail
    rw [hhead]
    change Underway K tidy s passed (w.next s.dictionary).2 returned
    refine ⟨h.sound, h.counted, hplaced, ?_, ?_⟩
    · rw [htail, List.tail_nil, ← hcome]
      exact h.covered
    · rw [htail, List.tail_nil, ← hcome]
      exact h.once
  · rw [hcome] at hhead htail
    rw [hhead]
    change Underway K tidy s passed (w.next s.dictionary).2 (b :: returned)
    refine ⟨h.sound, h.counted, hplaced, ?_, ?_⟩
    · intro x hx hstays
      have hcovered := h.covered x hx hstays
      rw [hcome, List.map_cons, List.mem_cons] at hcovered
      rw [htail, List.tail_cons, List.map_cons, List.mem_cons]
      tauto
    · intro htidy
      obtain ⟨hnodup, hreturned⟩ := h.once htidy
      rw [hcome] at hreturned
      -- no entry is to come twice, so the one that is returned now is not to come again
      have hb : b ∈ s.dictionary.toList := Dictionary.mem_of_next hhead
      have hsub := w.toCome_sublist s.dictionary fun hup => by
        obtain ⟨u, hu⟩ := Option.ne_none_iff_exists'.mp hup
        exact (h.placed u hu).2.1
      have hcoming := (hsub.map (·.id)).nodup h.sound.shape.handles
      rw [hcome, List.map_cons, List.nodup_cons] at hcoming
      rw [htail, List.tail_cons, List.map_cons, List.nodup_cons]
      refine ⟨⟨?_, hnodup⟩, ?_⟩
      · intro hmem
        obtain ⟨x, hx, hid⟩ := List.mem_map.mp hmem
        exact (hreturned x hx).2 (by simp [hid])
      · intro x hx
        rcases List.mem_cons.mp hx with rfl | hx
        · exact ⟨h.sound.shape.issued x hb, hcoming.1⟩
        · obtain ⟨hold, hnot⟩ := hreturned x hx
          exact ⟨hold, fun hmem => hnot (List.mem_cons_of_mem _ hmem)⟩

/-- An operation takes nothing from what is to come but what it takes out, and brings nothing
old back if it is tidy. -/
theorem call (hK : K.Lawful) (h : Underway K tidy s passed w returned) (op : Operation κ ν)
    (spares : op.Spares s.dictionary)
    (tidily : tidy = true → ∀ id ∈ s.dictionary.handles,
      id ∉ (s.perform K g op).2.dictionary.handles → returned.head?.map (·.id) = some id) :
    Underway K tidy (s.perform K g op).2 (s :: passed) w returned := by
  have hseed := seed_perform K g s op
  have hsound : (s.perform K g op).2.dictionary.Sound K s.settings.seed :=
    sound_perform g hK rfl h.sound op
  have hstays := stays_perform K g h.sound.shape h.counted spares
  refine ⟨hseed ▸ hsound, hstays.walks h.counted, h.placed.stays hstays, ?_, ?_⟩
  · intro b' hb' hall
    obtain ⟨b, hb, hsame⟩ := hall s List.mem_cons_self
    have hlabel := hstays.label_eq_of_same hK h.sound hsound hb hb' hsame
    have hkey : b.key = b'.key := congrArg Prod.snd hlabel
    rw [← hlabel]
    have hcovered := h.covered b hb fun t ht => hkey ▸ hall t (List.mem_cons_of_mem _ ht)
    refine hcovered.imp_left fun hcome => Walk.mem_toCome_of_left h.placed hstays hcome ?_
    rw [hlabel]
    exact List.mem_map_of_mem (f := (·.id)) hb'
  · intro htidy
    obtain ⟨hnodup, hreturned⟩ := h.once htidy
    refine ⟨hnodup, ?_⟩
    -- what is taken out was returned before, so it is not the entry to return next
    have hkept : ∀ u, w.upcoming = some u → u ∈ s.dictionary.handles →
        u ∈ (s.perform K g op).2.dictionary.handles := by
      intro u hup hu
      by_contra hgone
      obtain ⟨b, hb, rfl⟩ := Walk.exists_toCome_of_upcoming h.placed hup hu
      have hlast := tidily htidy _ hu hgone
      obtain ⟨x, hx, hid⟩ := Option.map_eq_some_iff.mp hlast
      exact (hreturned x (List.mem_of_head? hx)).2 (hid ▸ List.mem_map_of_mem hb)
    intro x hx
    obtain ⟨hold, hnot⟩ := hreturned x hx
    refine ⟨Nat.lt_of_lt_of_le hold hstays.issued, ?_⟩
    intro hmem
    obtain ⟨b, hb, hid⟩ := List.mem_map.mp hmem
    have hbefore : b.label.1 < s.dictionary.nextId := by
      change b.id < s.dictionary.nextId
      rw [hid]
      exact hold
    have hback := Walk.mem_toCome_of_old h.placed hstays hkept (List.mem_map_of_mem hb) hbefore
    obtain ⟨y, hy, hlabel⟩ := List.mem_map.mp hback
    have hyid : y.id = x.id := (congrArg Prod.fst hlabel).trans hid
    exact hnot (List.mem_map.mpr ⟨y, hy, hyid⟩)

/-- When nothing is to come any more, every key that was there all the time was returned. -/
theorem exists_returned (hK : K.Lawful) (h : Underway K tidy s passed w returned)
    (hends : (w.next s.dictionary).1 = none) {k : κ} (hk : ∀ t ∈ s :: passed, t.Has K k) :
    ∃ b ∈ returned, K.same k b.key = true := by
  obtain ⟨b, hb, hsame⟩ := hk s List.mem_cons_self
  have hnothing : w.toCome s.dictionary = [] := by
    rw [← List.head?_eq_none_iff, ← (Walk.next_eq h.sound.shape h.placed).1]
    exact hends
  have hall : ∀ t ∈ passed, t.Has K b.key := by
    intro t ht
    obtain ⟨x, hx, hkx⟩ := hk t (List.mem_cons_of_mem _ ht)
    exact ⟨x, hx, hK.same_trans _ _ _ (hK.same_symm _ _ hsame) hkx⟩
  rcases h.covered b hb hall with hcome | hreturned
  · rw [hnothing] at hcome
    exact absurd hcome List.not_mem_nil
  · obtain ⟨x, hx, hlabel⟩ := List.mem_map.mp hreturned
    have hkey : x.key = b.key := congrArg Prod.snd hlabel
    exact ⟨x, hx, hkey ▸ hsame⟩

end Underway

variable {K}

/-- The invariant holds all along. -/
theorem Journey.underway (hK : K.Lawful) {tidy : Bool} {first s : Situation κ ν σ}
    {passed : List (Situation κ ν σ)} {w : Walk} {returned : List (Binding κ ν)}
    (hfirst : first.dictionary.Sound K first.settings.seed)
    (run : Journey K g tidy first s passed w returned) :
    Underway K tidy s passed w returned := by
  -- induction on the journey, one lemma for each thing that can come next
  induction run with
  | start => exact .start g hK hfirst
  | ask _ ih => exact ih.ask
  | call _ op spares tidily ih => exact ih.call g hK op spares tidily

/-- **Safe walks.** Let a safe walk begin in any situation that a new dictionary can come to,
and let anything be done to the dictionary between its steps. Whatever it returns is in the
dictionary just then. When it has come to its end, it has returned every key that the
dictionary had all the time. And if the operations take out no entry but the one that was
returned last, it has returned no entry twice. -/
theorem safe_walk_returns_every_lasting_key (hK : K.Lawful) (settings : Settings) (words : σ)
    (earlier : List (Operation κ ν)) {tidy : Bool} {s : Situation κ ν σ}
    {passed : List (Situation κ ν σ)} {w : Walk} {returned : List (Binding κ ν)}
    (run : Journey K g tidy ((start settings words).after K g earlier) s passed w returned) :
    (∀ b, (w.next s.dictionary).1 = some b → b ∈ s.dictionary.toList) ∧
      ((w.next s.dictionary).1 = none → ∀ k, (∀ t ∈ s :: passed, t.Has K k) →
        ∃ b ∈ returned, K.same k b.key = true) ∧
      (tidy = true → (returned.map (·.id)).Nodup) := by
  have hsound : ((start settings words).after K g earlier).dictionary.Sound K
      ((start settings words).after K g earlier).settings.seed := by
    rw [seed_after K g earlier (start settings words)]
    exact sound_after g hK settings words earlier
  have h := run.underway g hK hsound
  exact ⟨fun _ => Dictionary.mem_of_next, fun hends k => h.exists_returned hK hends,
    fun htidy => (h.once htidy).1⟩

/-- A safe walk during which a target is allocated, the key two is deleted after it was
returned, and the key nine comes in. -/
theorem safe_walk_returns_one_and_six :
    ∃ s passed w returned, Journey (Keying.numbers String) WordSource.splitMix true
        ((start .standard 0).after (Keying.numbers String) WordSource.splitMix
          [.add 1 "one", .add 6 "six", .add 2 "two"]) s passed w returned ∧
      returned.map (·.key) = [9, 6, 2, 1] ∧
      (∃ b ∈ returned, (Keying.numbers String).same 1 b.key = true) ∧
      (∃ b ∈ returned, (Keying.numbers String).same 6 b.key = true) ∧
      (returned.map (·.id)).Nodup := by
  have begun : Journey (Keying.numbers String) WordSource.splitMix true
      ((start .standard 0).after (Keying.numbers String) WordSource.splitMix
        [.add 1 "one", .add 6 "six", .add 2 "two"]) _ _ _ _ := .ask .start
  have grown := begun.call (.expand 8) trivial (by decide +kernel)
  have halted := grown.call (.migrate 3) trivial (by decide +kernel)
  have deleted := halted.ask.call (.delete 2) trivial (by decide +kernel)
  have run := (deleted.call (.add 9 "nine") trivial (by decide +kernel)).ask.ask
  obtain ⟨-, returns, once⟩ := safe_walk_returns_every_lasting_key WordSource.splitMix
    (Keying.lawful_numbers String) .standard 0 _ run
  have found := returns (by decide +kernel)
  exact ⟨_, _, _, _, run, by decide +kernel, found 1 (by decide +kernel),
    found 6 (by decide +kernel), once rfl⟩

/-- If it is the entry to return next that is taken out, its bucket is entered once more, and
two is returned again. -/
example : ∃ s passed w returned, Journey (Keying.numbers String) WordSource.splitMix false
    ((start .standard 0).after (Keying.numbers String) WordSource.splitMix
      [.add 1 "one", .add 6 "six", .add 2 "two"]) s passed w returned ∧
    returned.map (·.key) = [2, 2, 1] :=
  ⟨_, _, _, _, ((Journey.start.ask.ask).call (.delete 6) trivial (by decide)).ask,
    by decide +kernel⟩

end Situation

end TwinTable
