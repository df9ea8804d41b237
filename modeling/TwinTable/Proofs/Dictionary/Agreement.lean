/-
A dictionary answers as a plain map does.

A dictionary agrees with a map if it holds the same entries, in whatever order
(`Dictionary.Agrees`). A sound dictionary that agrees with a map answers each operation as
the map may, and agrees with it again afterwards; this is one case for each operation
(`agrees_perform`), and the answers to a row of operations follow by induction.

The operations come down to four steps that a map knows. A search finds the entry of a key
or there is none; a claim does the same or enters a blank one; writing to a place revises
one key; erasing at a place strikes one. That the arrays meanwhile move entries and change
their size is a row of shifts, of which a map sees nothing.
-/
import TwinTable.Proofs.Dictionary.Ledger
import TwinTable.Proofs.Dictionary.Members

set_option autoImplicit false

namespace TwinTable

namespace Dictionary

variable {κ ν : Type}

/-- A dictionary and a map hold the same entries. -/
def Agrees (d : Dictionary κ ν) (m : Ledger κ ν) : Prop :=
  (d.toList.map Binding.pair).Perm m

variable {K : Keying κ ν} {seed : Seed} {d d' : Dictionary κ ν} {m : Ledger κ ν} {k : κ}
  {p : Place} {b : Binding κ ν}

theorem Agrees.of_perm (h : d.Agrees m) (hp : d'.toList.Perm d.toList) : d'.Agrees m :=
  (hp.map _).trans h

theorem Agrees.mem (h : d.Agrees m) (hb : b ∈ d.toList) : b.pair ∈ m :=
  h.mem_iff.mp (List.mem_map_of_mem hb)

theorem Agrees.distinct (hK : K.Lawful) (hd : d.Sound K seed) (h : d.Agrees m) :
    m.Distinct K :=
  Ledger.Distinct.of_perm hK h (List.pairwise_map.mpr hd.apart)

theorem Agrees.size_eq (hd : d.Shape) (h : d.Agrees m) : d.size = m.length := by
  rw [hd.size_eq, ← h.length_eq, List.length_map]

theorem Agrees.isEmpty_iff (hd : d.Shape) (h : d.Agrees m) : d.isEmpty = true ↔ m = [] := by
  rw [isEmpty, decide_eq_true_iff, h.size_eq hd, List.length_eq_zero_iff]

theorem Agrees.entryOf?_eq_some (hK : K.Lawful) (hd : d.Sound K seed) (h : d.Agrees m)
    (hb : b ∈ d.toList) (hk : K.same k b.key = true) : m.entryOf? K k = some b.pair :=
  (h.distinct hK hd).entryOf?_eq_some hK (h.mem hb) hk

theorem Agrees.entryOf?_eq_none (h : d.Agrees m)
    (hk : ∀ b ∈ d.toList, K.same k b.key = false) : m.entryOf? K k = none := by
  refine Ledger.entryOf?_eq_none.mpr ?_
  intro e he
  obtain ⟨b, hb, rfl⟩ := List.mem_map.mp (h.mem_iff.mpr he)
  exact hk b hb

theorem mem_toList_of_entryAt (h : d.entry? p = some b) : b ∈ d.toList :=
  mem_toList_of_mem_chain (mem_of_entryAt h).1

/-! ## Changing one chain -/

/-- The list of a dictionary, cut at a chain: what changes that chain leaves the rest. -/
theorem exists_split {s : Side} {i : Nat} (hi : i < (d.side s).size) :
    ∃ before after, d.toList = before ++ (d.side s).chain i ++ after ∧
      ∀ f, (d.modifySide s fun t => { t with chains := t.chains.modify i f }).toList =
        before ++ f ((d.side s).chain i) ++ after := by
  obtain ⟨before, after, hl, hf⟩ := Buckets.exists_split hi
  cases s with
  | main =>
    refine ⟨before, after ++ d.target.toList, ?_, ?_⟩
    · change d.main.toList ++ d.target.toList = _
      rw [show d.main.toList = _ from hl]
      simp only [List.append_assoc]
    · intro f
      change (d.main.chains.modify i f).toList.flatten ++ d.target.toList = _
      rw [show (d.main.chains.modify i f).toList.flatten = _ from hf f]
      simp only [List.append_assoc]
  | target =>
    refine ⟨d.main.toList ++ before, after, ?_, ?_⟩
    · change d.main.toList ++ d.target.toList = _
      rw [show d.target.toList = _ from hl]
      simp only [List.append_assoc]
    · intro f
      change d.main.toList ++ (d.target.chains.modify i f).toList.flatten = _
      rw [show (d.target.chains.modify i f).toList.flatten = _ from hf f]
      simp only [List.append_assoc]

/-- Writing to a place writes to the binding with its handle, wherever it stands. -/
theorem toList_setAt (hd : d.Shape) (h : d.entry? p = some b) (f : Value ν → Value ν) :
    (d.setAt p f).toList =
      d.toList.map fun x => if x.id = p.id then { x with value := f x.value } else x := by
  obtain ⟨hb, hid⟩ := mem_of_entryAt h
  obtain ⟨before, after, hl, hf⟩ := exists_split (Buckets.lt_size_of_mem hb)
  have hnodup := hd.handles
  rw [hl, List.map_append, List.map_append] at hnodup
  obtain ⟨hfront, -, hback⟩ := List.nodup_append.mp hnodup
  -- handles occur once, so the binding is the only one to be changed on either side of the cut
  have hbefore : ∀ x ∈ before, x.id ≠ p.id := by
    intro x hx
    rw [← hid]
    exact (List.nodup_append.mp hfront).2.2 _ (List.mem_map_of_mem hx) _
      (List.mem_map_of_mem hb)
  have hafter : ∀ x ∈ after, x.id ≠ p.id := by
    intro x hx he
    rw [← hid] at he
    exact hback _ (List.mem_append_right _ (List.mem_map_of_mem hb)) _
      (List.mem_map_of_mem hx) he.symm
  have hsame : ∀ l : List (Binding κ ν), (∀ x ∈ l, x.id ≠ p.id) →
      l.map (fun x => if x.id = p.id then { x with value := f x.value } else x) = l := by
    intro l hl
    refine (List.map_congr_left (g := id) ?_).trans (List.map_id l)
    intro x hx
    exact if_neg (hl x hx)
  rw [hl, List.map_append, List.map_append, hsame before hbefore, hsame after hafter]
  exact hf _

/-- **Writing to the place of a key** revises the key. -/
theorem Agrees.setAt (hK : K.Lawful) (hd : d.Sound K seed) (h : d.Agrees m)
    (hp : d.entry? p = some b) (hk : K.same k b.key = true) (f : Value ν → Value ν) :
    (d.setAt p f).Agrees (m.revise K k f) := by
  have hb := mem_toList_of_entryAt hp
  have hid := (mem_of_entryAt hp).2
  refine List.Perm.trans (List.Perm.of_eq ?_) (Ledger.perm_revise h k f)
  rw [toList_setAt hd.shape hp, Ledger.revise, List.map_map, List.map_map]
  refine List.map_congr_left ?_
  intro x hx
  -- the binding at the place is the only one with its handle, and the only one with its key
  by_cases hx' : x = b
  · subst hx'
    simp [Binding.pair, hid, hk]
  · have hne : x.id ≠ p.id := by
      intro he
      exact hx' (List.inj_on_of_nodup_map hd.shape.handles hx hb (he.trans hid.symm))
    have hkx : ¬ K.same k x.key = true := fun hkx =>
      hx' (hK.eq_of_same (·.key) hd.apart hx hb hkx hk)
    simp [Binding.pair, hne, hkx]

/-- **Erasing at the place of a key** strikes the key. -/
theorem Agrees.erase (hK : K.Lawful) (hd : d.Sound K seed) (h : d.Agrees m)
    (hp : d.entry? p = some b) (hk : K.same k b.key = true) :
    (d.modifySide p.side fun t => t.erase p.index p.id).Agrees (m.strike K k) := by
  have hcons : List.Perm (b.pair ::
      (d.modifySide p.side fun t => t.erase p.index p.id).toList.map Binding.pair) m :=
    ((toList_erase hp).symm.map Binding.pair).trans h
  have hdistinct := (h.distinct hK hd).of_perm hK hcons.symm
  have hstruck := Ledger.perm_strike (K := K) hcons k
  rwa [hdistinct.strike_cons hK hk] at hstruck

/-! ## Searching and claiming -/

variable {r : Rules κ ν}

/-- **A search** finds the entry of a key, or the map has none. -/
theorem Agrees.find (hK : r.keying.Lawful) (hd : d.Sound r.keying r.settings.seed)
    (h : d.Agrees m) (k : κ) :
    (d.find r k).2.Sound r.keying r.settings.seed ∧ (d.find r k).2.Agrees m ∧
      ((d.find r k).1 = none ∧ m.entryOf? r.keying k = none ∨
        ∃ p b, (d.find r k).1 = some p ∧ Dictionary.entry? (d.find r k).2 p = some b ∧
          r.keying.same k b.key = true) := by
  have hshifts := shifts_find (r := r) hd.shape k
  have hsound := hd.of_shifts hK hshifts
  have hagrees := h.of_perm (hshifts.toList_perm hd.shape).1
  refine ⟨hsound, hagrees, ?_⟩
  -- nothing was found: the search was in vain, or there was nothing to search in
  rcases hfound : (d.find r k).1 with _ | p
  · refine .inl ⟨rfl, ?_⟩
    rw [Dictionary.find] at hfound
    split at hfound
    · rename_i hempty
      have hnone : m.length = 0 := by
        rw [← h.size_eq hd.shape]
        simpa [isEmpty] using hempty
      rw [List.eq_nil_of_length_eq_zero hnone]
      rfl
    · rename_i hempty
      rw [Dictionary.find, if_neg hempty] at hsound hagrees
      exact hagrees.entryOf?_eq_none fun b hb => hsound.same_eq_false_of_lookup hK hfound hb
  · obtain ⟨b, -, hb, hk⟩ := Sound.exists_mem_of_lookup hsound.shape (lookup_of_find hfound)
    exact .inr ⟨p, b, rfl, hb, hk⟩

/-- **A claim** finds the entry of a key, or enters a blank one. -/
theorem Agrees.claim (hK : r.keying.Lawful) (hd : d.Sound r.keying r.settings.seed)
    (h : d.Agrees m) (k : κ) :
    (d.claim r k).2.Sound r.keying r.settings.seed ∧
      ∃ b, Dictionary.entry? (d.claim r k).2 (d.claim r k).1.place = some b ∧
        r.keying.same k b.key = true ∧
        ((d.claim r k).1.isFresh = true ∧ m.entryOf? r.keying k = none ∧
            b.pair = (r.keying.copyKey k, .blank) ∧
            (d.claim r k).2.Agrees (m.enter r.keying k .blank) ∨
          (d.claim r k).1.isFresh = false ∧ m.entryOf? r.keying k = some b.pair ∧
            (d.claim r k).2.Agrees m) := by
  obtain ⟨hshifts, hroom⟩ := shifts_ready (r := r) hd.shape
  have hsound := hd.of_shifts hK hshifts
  have hagrees := h.of_perm (Shifts.toList_perm hd.shape hshifts).1
  refine ⟨hd.of_changes hK (changes_claim hd.shape k), ?_⟩
  rw [Dictionary.claim]
  dsimp only
  split
  · rename_i p hfound
    obtain ⟨b, hmem, hb, hk⟩ := Sound.exists_mem_of_lookup hsound.shape hfound
    exact ⟨b, hb, hk, .inr ⟨rfl, hagrees.entryOf?_eq_some hK hsound hmem hk, hagrees⟩⟩
  · rename_i habsent
    refine ⟨_, entry?_link r hsound.shape k hroom, hK.same_copyKey k, .inl ⟨rfl, ?_, rfl, ?_⟩⟩
    · exact hagrees.entryOf?_eq_none fun b hb => hsound.same_eq_false_of_lookup hK habsent hb
    · have hlinked := (toList_link r hsound.shape k (r.hash k) hroom).map Binding.pair
      exact hlinked.trans (hagrees.cons _)

/-- Storing an object at the place of a key revises the key. -/
theorem Agrees.store (hK : r.keying.Lawful) (hd : d.Sound r.keying r.settings.seed)
    (h : d.Agrees m) (hp : d.entry? p = some b) (hk : r.keying.same k b.key = true) (v : ν) :
    (d.store r p v).Agrees (m.revise r.keying k fun _ => .object (r.keying.copyValue v)) := by
  have hhand : (d.hand (.valueCopied (r.keying.copyValue v))).Sound r.keying r.settings.seed :=
    hd.of_shifts hK (shifts_hand d _)
  have hp' : Dictionary.entry? (d.hand (.valueCopied (r.keying.copyValue v))) p = some b := by
    unfold entry?
    rw [side_hand]
    exact hp
  exact Agrees.setAt hK hhand h hp' hk _

theorem Agrees.handAll (h : d.Agrees m) (cs : List (Custody κ ν)) : (d.handAll cs).Agrees m := by
  obtain ⟨o, ho⟩ := exists_outbox_handAll cs d
  rw [ho]
  exact h

/-! ## Revising along a cursor -/

/-- Revising a chain is revising its keys one after another; `others` is what the map holds
besides, and `more` are keys to come. -/
theorem reviseAlong_chain (hK : K.Lawful) {τ : Type} (f : τ → κ → Value ν → Value ν × τ) :
    ∀ (c others : List (Binding κ ν)) (s : τ) (m : Ledger κ ν), m.Distinct K →
      ((c ++ others).map Binding.pair).Perm m →
      ∃ m₁ : Ledger κ ν, (((reviseChain f s c).1 ++ others).map Binding.pair).Perm m₁ ∧
        ∀ more, m.reviseAlong K f s (c.map (·.key) ++ more) =
          ((reviseChain f s c).1.map Binding.pair ++
              (m₁.reviseAlong K f (reviseChain f s c).2 more).1,
            (m₁.reviseAlong K f (reviseChain f s c).2 more).2) := by
  intro c
  -- induction on the chain; what was revised goes over to the others
  induction c with
  | nil => intro others s m _ h; exact ⟨m, h, fun _ => rfl⟩
  | cons b c ih =>
    intro others s m hm h
    have hentry : m.entryOf? K b.key = some b.pair :=
      hm.entryOf?_eq_some hK (h.mem_iff.mp List.mem_cons_self) (hK.same_self b.key)
    let v := f s b.key b.value
    let b' : Binding κ ν := { b with value := v.1 }
    have hrevised : ((c ++ b' :: others).map Binding.pair).Perm
        (m.revise K b.key fun _ => v.1) := by
      refine ((@List.perm_middle _ b' c others).map _).trans ?_
      refine List.Perm.trans (List.Perm.of_eq ?_) (Ledger.perm_revise h b.key _)
      have hcons : Ledger.Distinct K (b.pair :: (c ++ others).map Binding.pair) :=
        hm.of_perm hK h.symm
      exact (hcons.revise_cons hK (hK.same_self b.key) fun _ => v.1).symm
    obtain ⟨m₁, hperm, halong⟩ := ih (b' :: others) v.2 _ (hm.revise b.key _) hrevised
    refine ⟨m₁, (List.perm_middle.symm.map _).trans hperm, ?_⟩
    intro more
    rw [List.map_cons, List.cons_append, Ledger.reviseAlong_cons f hentry]
    exact congrArg (fun rest : List (κ × Value ν) × Ledger κ ν => (b'.pair :: rest.1, rest.2))
      (halong more)

/-- The cut of `exists_split`, in or out of range. -/
theorem exists_split_any {s : Side} {i : Nat} {f : List (Binding κ ν) → List (Binding κ ν)}
    (hf : (d.side s).chain i = [] → f [] = []) :
    ∃ before after, d.toList = before ++ (d.side s).chain i ++ after ∧
      (d.modifySide s fun t => { t with chains := t.chains.modify i f }).toList =
        before ++ f ((d.side s).chain i) ++ after := by
  by_cases hi : i < (d.side s).size
  · obtain ⟨before, after, hl, hl'⟩ := exists_split hi
    exact ⟨before, after, hl, hl' f⟩
  · have hnone := Buckets.chain_eq_nil (Nat.le_of_not_lt hi)
    have hsame : ∀ t : Buckets κ ν, t.size ≤ i → t.chains.modify i f = t.chains := by
      intro t ht
      refine Array.ext_getElem? ?_
      intro j
      rw [Array.getElem?_modify]
      split
      · rename_i hij
        rw [← hij, Array.getElem?_eq_none ht]
        rfl
      · rfl
    refine ⟨d.toList, [], by simp [hnone], ?_⟩
    rw [hnone, hf hnone, List.append_nil, List.append_nil]
    cases s with
    | main =>
      change (d.main.chains.modify i f).toList.flatten ++ _ = _
      rw [hsame d.main (Nat.le_of_not_lt hi)]
      rfl
    | target =>
      change _ ++ (d.target.chains.modify i f).toList.flatten = _
      rw [hsame d.target (Nat.le_of_not_lt hi)]
      rfl

/-- A change of values leaves a map with the same keys. -/
theorem Agrees.exists_key {m' : Ledger κ ν} (h : d.Agrees m) (h' : d'.Agrees m')
    (hlabels : d'.toList.map Binding.label = d.toList.map Binding.label) {e : κ × Value ν}
    (he : e ∈ m') : ∃ e' ∈ m, e'.1 = e.1 := by
  obtain ⟨y, hy, rfl⟩ := List.mem_map.mp (h'.mem_iff.mpr he)
  have hlabel : y.label ∈ d.toList.map Binding.label := hlabels ▸ List.mem_map_of_mem hy
  obtain ⟨z, hz, hzy⟩ := List.mem_map.mp hlabel
  exact ⟨z.pair, h.mem hz, congrArg Prod.snd hzy⟩

/-- **Revising buckets** revises their keys in the map, in the order in which they are met. The
function is handed a state along, so the order of the rest would matter as well. -/
theorem Agrees.reviseBuckets (hK : r.keying.Lawful) {τ : Type}
    (f : τ → κ → Value ν → Value ν × τ) : ∀ (buckets : List Cursor.Bucket)
      (before : List (List (Binding κ ν))) (s : τ) (d : Dictionary κ ν) (m : Ledger κ ν),
      d.Sound r.keying r.settings.seed → d.Agrees m →
      ∃ bs m', (Dictionary.reviseBuckets f before buckets s d).1.flatten =
          before.reverse.flatten ++ bs ∧
        (∀ x ∈ bs, ∃ e ∈ m, e.1 = x.key) ∧
        m.reviseAlong r.keying f s (bs.map (·.key)) = (bs.map Binding.pair, m') ∧
        (Dictionary.reviseBuckets f before buckets s d).2.2.Agrees m' := by
  intro buckets
  -- induction on the buckets to come; the map changes with the dictionary, bucket by bucket
  induction buckets with
  | nil =>
    intro before s d m hd h
    exact ⟨[], m, (List.append_nil _).symm, fun x hx => absurd hx List.not_mem_nil, rfl, h⟩
  | cons bucket buckets ih =>
    intro before s d m hd h
    have hchange := gain_reviseBucket (r := r) f s d bucket
    have hlabels := map_label_reviseChain f (d.chainAt bucket) s
    have hkeys : (reviseChain f s (d.chainAt bucket)).1.map (·.key) =
        (d.chainAt bucket).map (·.key) := map_key_of_label hlabels
    have hnil : d.chainAt bucket = [] → (reviseChain f s (d.chainAt bucket)).1 = [] := by
      intro hc
      rw [hc]
      rfl
    -- a bucket past the end has no chain, and revising none of it gives none
    obtain ⟨front, back, hl, hl'⟩ := exists_split_any (d := d)
      (f := fun _ => (reviseChain f s (d.chainAt bucket)).1) hnil
    have hmiddle : ∀ c : List (Binding κ ν), (front ++ c ++ back).Perm (c ++ (front ++ back)) := by
      intro c
      rw [← List.append_assoc c]
      exact List.perm_append_comm.append_right back
    have hm : ((d.chainAt bucket ++ (front ++ back)).map Binding.pair).Perm m :=
      ((hmiddle _).symm.map _).trans (hl ▸ h)
    obtain ⟨m₁, hm₁, halong⟩ := reviseAlong_chain hK f _ _ s m (h.distinct hK hd) hm
    have hd₁ := hd.of_change hK hchange.change
    have h₁ : Agrees (d.modifySide bucket.1 fun t =>
        { t with chains := t.chains.modify bucket.2 fun _ =>
          (reviseChain f s (d.chainAt bucket)).1 }) m₁ := by
      rw [Agrees, hl']
      exact ((hmiddle _).map _).trans hm₁
    obtain ⟨bs, m', hbs, hkey, hrest, hend⟩ := ih
      ((reviseChain f s (d.chainAt bucket)).1 :: before) (reviseChain f s (d.chainAt bucket)).2
      _ m₁ hd₁ h₁
    refine ⟨(reviseChain f s (d.chainAt bucket)).1 ++ bs, m', ?_, ?_, ?_, hend⟩
    · rw [Dictionary.reviseBuckets]
      refine hbs.trans ?_
      rw [List.reverse_cons, List.flatten_append, List.append_assoc]
      simp
    · have hsame : (d.modifySide bucket.1 fun t =>
          { t with chains := t.chains.modify bucket.2 fun _ =>
            (reviseChain f s (d.chainAt bucket)).1 }).toList.map Binding.label =
          d.toList.map Binding.label := by
        rw [hl', hl]
        simp only [List.map_append, hlabels]
        rfl
      have hall : ∀ e ∈ m₁, ∃ e' ∈ m, e'.1 = e.1 := fun e he => h.exists_key h₁ hsame he
      intro x hx
      rcases List.mem_append.mp hx with hx | hx
      · exact hall x.pair (hm₁.mem_iff.mp (List.mem_map_of_mem (List.mem_append_left _ hx)))
      · obtain ⟨e, he, hxe⟩ := hkey x hx
        obtain ⟨e', he', hee⟩ := hall e he
        exact ⟨e', he', hee.trans hxe⟩
    · rw [List.map_append, hkeys, halong, hrest, List.map_append]

/-! ## Operations -/

-- where nothing is drawn, it does not matter whether a draw would be in vain
variable (inVain : Prop)

/-- **Adding** enters the key, or says that it is there and leaves its value as it was. -/
theorem Agrees.add (hK : r.keying.Lawful) (hd : d.Sound r.keying r.settings.seed)
    (h : d.Agrees m) (k : κ) (v : ν) :
    ∃ m', m.Answers r.keying inVain (.add k v) (.outcome (d.add r k v).1) m' ∧
      (d.add r k v).2.Agrees m' := by
  obtain ⟨hd', b, hb, hk, hcase⟩ := Agrees.claim hK hd h k
  rw [Dictionary.add]
  revert hd' hb hcase
  rcases d.claim r k with ⟨p | p, d'⟩
  · rintro hd' hb (⟨-, hnone, -, h'⟩ | ⟨hfresh, -⟩)
    · have hstore := Agrees.store hK hd' h' hb hk v
      rw [Ledger.revise_enter hK hnone] at hstore
      refine ⟨_, ?_, hstore⟩
      rw [Ledger.Answers, hnone]
      exact ⟨rfl, rfl⟩
    · exact absurd hfresh (by simp [Claim.isFresh])
  · rintro hd' hb (⟨hfresh, -⟩ | ⟨-, hsome, h'⟩)
    · exact absurd hfresh (by simp [Claim.isFresh])
    · refine ⟨m, ?_, h'⟩
      rw [Ledger.Answers, hsome]
      exact ⟨rfl, rfl⟩

/-- **Claiming a key and setting its value** shows the entry as it was before it was set; that of a
fresh key is blank. -/
theorem Agrees.claim_setAt (hK : r.keying.Lawful) (hd : d.Sound r.keying r.settings.seed)
    (h : d.Agrees m) (k : κ) (set : Bool → Value ν → Value ν) :
    ∃ m', m.Answers r.keying inVain (.claim k set)
        (.claimed (d.claim r k).1.isFresh <|
          Dictionary.entry? (d.claim r k).2 (d.claim r k).1.place) m' ∧
      ((d.claim r k).2.setAt (d.claim r k).1.place (set (d.claim r k).1.isFresh)).Agrees m' := by
  obtain ⟨hd', b, hb, hk, ⟨hfresh, hnone, hblank, h'⟩ | ⟨hfresh, hsome, h'⟩⟩ :=
    Agrees.claim hK hd h k
  · have hset := Agrees.setAt hK hd' h' hb hk (set true)
    rw [Ledger.revise_enter hK hnone] at hset
    rw [hfresh, hb]
    refine ⟨_, ?_, hset⟩
    rw [Ledger.Answers, hnone]
    exact ⟨⟨b, rfl, hblank⟩, rfl⟩
  · rw [hfresh, hb]
    refine ⟨_, ?_, Agrees.setAt hK hd' h' hb hk (set false)⟩
    rw [Ledger.Answers, hsome]
    exact ⟨⟨b, rfl, rfl⟩, rfl⟩

/-- **Replacing** enters the key or revises it. What the old value was goes into the outbox and
not into the answer. -/
theorem Agrees.replace (hK : r.keying.Lawful) (hd : d.Sound r.keying r.settings.seed)
    (h : d.Agrees m) (k : κ) (v : ν) :
    ∃ m', m.Answers r.keying inVain (.replace k v) (.told (d.replace r k v).1) m' ∧
      (d.replace r k v).2.Agrees m' := by
  obtain ⟨hd', b, hb, hk, hcase⟩ := Agrees.claim hK hd h k
  rw [Dictionary.replace]
  revert hd' hb hcase
  rcases d.claim r k with ⟨p | p, d'⟩
  · rintro hd' hb (⟨-, hnone, -, h'⟩ | ⟨hfresh, -⟩)
    · have hstore := Agrees.store hK hd' h' hb hk v
      rw [Ledger.revise_enter hK hnone] at hstore
      refine ⟨_, ?_, hstore⟩
      rw [Ledger.Answers, hnone]
      exact ⟨rfl, rfl⟩
    · exact absurd hfresh (by simp [Claim.isFresh])
  · rintro hd' hb (⟨hfresh, -⟩ | ⟨-, hsome, h'⟩)
    · exact absurd hfresh (by simp [Claim.isFresh])
    · have hstore := Agrees.store hK hd' h' hb hk v
      dsimp only [Claim.place] at hb ⊢
      rw [hb]
      refine ⟨_, ?_, hstore.handAll _⟩
      rw [Ledger.Answers, hsome]
      exact ⟨rfl, rfl⟩

/-- **Unlinking** hands out the entry of the key, which is struck. -/
theorem Agrees.unlink (hK : r.keying.Lawful) (hd : d.Sound r.keying r.settings.seed)
    (h : d.Agrees m) (k : κ) :
    (d.unlink r k).1.map Binding.pair = m.entryOf? r.keying k ∧
      (d.unlink r k).2.Agrees (m.strike r.keying k) := by
  obtain ⟨hd', h', hcase⟩ := Agrees.find hK hd h k
  rw [Dictionary.unlink]
  revert hd' h' hcase
  rcases d.find r k with ⟨found, d'⟩
  rintro hd' h' (⟨rfl, hnone⟩ | ⟨p, b, rfl, hb, hk⟩)
  · refine ⟨hnone.symm, ?_⟩
    rw [Ledger.strike_of_entryOf?_eq_none hnone]
    exact h'
  · refine ⟨?_, Agrees.erase hK hd' h' hb hk⟩
    rw [h'.entryOf?_eq_some hK hd' (mem_toList_of_entryAt hb) hk]
    exact congrArg (Option.map Binding.pair) hb

/-- **Deleting** strikes the key, or says that it is not there. -/
theorem Agrees.delete (hK : r.keying.Lawful) (hd : d.Sound r.keying r.settings.seed)
    (h : d.Agrees m) (k : κ) :
    ∃ m', m.Answers r.keying inVain (.delete k) (.outcome (d.delete r k).1) m' ∧
      (d.delete r k).2.Agrees m' := by
  obtain ⟨hentry, h'⟩ := Agrees.unlink hK hd h k
  rw [Dictionary.delete]
  revert hentry h'
  rcases d.unlink r k with ⟨_ | b, d'⟩
  · intro hnone h'
    refine ⟨m, ?_, ?_⟩
    · rw [Ledger.Answers, ← hnone]
      exact ⟨rfl, rfl⟩
    · rwa [Ledger.strike_of_entryOf?_eq_none hnone.symm] at h'
  · intro hsome h'
    refine ⟨m.strike r.keying k, ?_, h'.handAll _⟩
    rw [Ledger.Answers, ← hsome]
    exact ⟨rfl, rfl⟩

end Dictionary

/-! ## Histories -/

namespace Situation

variable {κ ν σ : Type} {K : Keying κ ν} (g : WordSource σ)

open Dictionary

/-- **Finding a key and setting its value** shows the entry as it was, and sets nothing where
nothing was found. -/
theorem agrees_perform_find (hK : K.Lawful) {s : Situation κ ν σ} {m : Ledger κ ν}
    (hs : s.dictionary.Sound K s.settings.seed) (h : s.dictionary.Agrees m) (k : κ)
    (set : Value ν → Value ν) (inVain : Prop) :
    ∃ m', m.Answers K inVain (.find k set) (s.perform K g (.find k set)).1 m' ∧
      (s.perform K g (.find k set)).2.dictionary.Agrees m' := by
  obtain ⟨hd, hd', hcase⟩ := Agrees.find (r := s.rules K) hK hs h k
  rw [perform]
  revert hd hd' hcase
  rcases s.dictionary.find (s.rules K) k with ⟨found, d⟩
  rintro hd hd' (⟨rfl, hnone⟩ | ⟨p, b, rfl, hb, hk⟩)
  · refine ⟨m, ⟨⟨none, rfl, hnone.symm⟩, ?_⟩, hd'⟩
    exact (Ledger.revise_of_entryOf?_eq_none hnone set).symm
  · refine ⟨_, ⟨⟨_, rfl, ?_⟩, rfl⟩, Agrees.setAt hK hd hd' hb hk set⟩
    rw [hd'.entryOf?_eq_some hK hd (mem_toList_of_entryAt hb) hk]
    exact congrArg (Option.map Binding.pair) hb

/-- **A dictionary answers as a map may**, and agrees with it again afterwards. -/
theorem agrees_perform (hK : K.Lawful) {s : Situation κ ν σ} {m : Ledger κ ν}
    (hs : s.dictionary.Sound K s.settings.seed) (h : s.dictionary.Agrees m)
    (op : Operation κ ν) :
    ∃ m', m.Answers K (s.InVain K g op) op (s.perform K g op).1 m' ∧
      (s.perform K g op).2.dictionary.Agrees m' := by
  have hkept : ∀ {d : Dictionary κ ν}, Shifts (s.rules K).hash s.dictionary d → d.Agrees m :=
    fun hshifts => h.of_perm (Shifts.toList_perm hs.shape hshifts).1
  cases op with
  | add k v => exact Agrees.add (r := s.rules K) _ hK hs h k v
  | claim k set => exact Agrees.claim_setAt (r := s.rules K) _ hK hs h k set
  | replace k v => exact Agrees.replace (r := s.rules K) _ hK hs h k v
  | find k set => exact agrees_perform_find g hK hs h k set _
  | unlink k =>
    obtain ⟨hentry, h'⟩ := Agrees.unlink (r := s.rules K) hK hs h k
    exact ⟨_, ⟨⟨_, rfl, hentry⟩, rfl⟩, h'⟩
  | delete k => exact Agrees.delete (r := s.rules K) _ hK hs h k
  | discard b => exact ⟨m, rfl, h.handAll _⟩
  | clear =>
    refine ⟨[], ⟨⟨_, rfl⟩, rfl⟩, ?_⟩
    change s.dictionary.clear.2.Agrees []
    rw [Agrees, toList_clear]
    exact .nil
  | expand size => exact ⟨m, rfl, hkept (shifts_expand _ size)⟩
  | resizeTo size => exact ⟨m, rfl, hkept (shifts_resizeTo hs.shape size)⟩
  | shrinkToFit => exact ⟨m, rfl, hkept (shifts_resizeTo hs.shape _)⟩
  | migrate n => exact ⟨m, rfl, hkept (shifts_migrate _ hs.shape n)⟩
  | migrateFor rounds => exact ⟨m, rfl, hkept (shifts_migrateFor hs.shape rounds)⟩
  | allowResizing allowed => exact ⟨m, rfl, hkept (shifts_note _ _)⟩
  | pick =>
    have hd := hkept (shifts_pick hs.shape g s.words)
    have hnone := hs.shape.pick_eq_none (g := g) (r := s.rules K) (s := s.words)
    rw [h.isEmpty_iff hs.shape] at hnone
    exact ⟨m, ⟨⟨_, rfl, hnone, fun x hx => hd.mem (mem_of_pick g _ _ hx)⟩, rfl⟩, hd⟩
  | pickFairly =>
    have hd := hkept (shifts_pickFairly hs.shape g s.words)
    have hnone := hs.shape.pickFairly_eq_none g (s.rules K) s.words
    rw [h.isEmpty_iff hs.shape] at hnone
    exact ⟨m, ⟨⟨_, rfl, hnone, fun x hx => hd.mem (mem_of_pickFairly g _ _ hx)⟩, rfl⟩, hd⟩
  | sample count =>
    have hd := hkept (shifts_sample hs.shape g count s.words)
    exact ⟨m, ⟨⟨_, rfl, fun x hx => hd.mem (mem_of_sample g _ _ _ hx)⟩, rfl⟩, hd⟩
  | scan cursor => exact ⟨m, ⟨⟨_, _, rfl, fun x hx => h.mem (mem_of_scan hx)⟩, rfl⟩, h⟩
  | scanRevising f start cursor =>
    obtain ⟨bs, m', hbs, hkeys, halong, hend⟩ := Agrees.reviseBuckets (r := s.rules K) hK f
      (s.dictionary.cover cursor).1 [] start s.dictionary m hs h
    refine ⟨m', ⟨bs, (s.dictionary.cover cursor).2, ?_, hkeys, halong⟩, hend⟩
    exact congrArg (Answer.scanned · _) (hbs.trans (List.nil_append _))
  | walk => exact ⟨m, rfl, h⟩
  | safeWalk => exact ⟨m, rfl, hkept (.single (.aside rfl rfl rfl rfl rfl))⟩
  | advance w => exact ⟨m, ⟨⟨_, _, rfl, fun x hx => h.mem (mem_of_next hx)⟩, rfl⟩, h⟩
  | endWalk w => exact ⟨m, rfl, hkept (shifts_endWalk _ w)⟩

/-- Whatever a map explains up to some point, it explains from there on. -/
theorem explains_replies (hK : K.Lawful) : ∀ (ops : List (Operation κ ν))
    (s : Situation κ ν σ) (m : Ledger κ ν), s.dictionary.Sound K s.settings.seed →
      s.dictionary.Agrees m → m.Explains K g s ops (s.replies K g ops) := by
  intro ops
  -- induction on the operations; the map of one step is the one that the next begins with
  induction ops with
  | nil => intro s m _ _; trivial
  | cons op ops ih =>
    intro s m hs h
    obtain ⟨m', hanswer, hagrees⟩ := agrees_perform g hK hs h op
    have hsound := sound_perform g hK rfl hs op
    refine ⟨m', hanswer, hagrees.distinct hK hsound, hagrees.size_eq hsound.shape, ?_⟩
    refine ih (s.perform K g op).2 m' ?_ hagrees
    rw [seed_perform]
    exact hsound

/-- **A dictionary is a finite map.** Whatever a new dictionary is asked, in whatever order,
there is a plain map, empty at first, that gives the same answers and has the same size
after each of them. An entry that is picked is one of the map, and there is none only if the
map is empty or all tries of the draw missed. -/
theorem empty_explains_replies (hK : K.Lawful) (settings : Settings) (words : σ)
    (ops : List (Operation κ ν)) :
    Ledger.Explains K g (start settings words) [] ops
      ((start settings words).replies K g ops) :=
  explains_replies g hK ops _ [] (sound_empty K _) .nil

theorem numbers_explains_replies :
    (Keying.numbers String).Lawful ∧
      Ledger.Explains (Keying.numbers String) WordSource.splitMix (start .standard 0) []
        [.add 1 "one", .add 5 "five", .replace 1 "uno", .find 5 id, .expand 16, .delete 1, .pick]
        ((start .standard 0).replies (Keying.numbers String) WordSource.splitMix
          [.add 1 "one", .add 5 "five", .replace 1 "uno", .find 5 id, .expand 16, .delete 1,
            .pick]) :=
  ⟨Keying.lawful_numbers String,
    empty_explains_replies WordSource.splitMix (Keying.lawful_numbers String) .standard 0 _⟩

end Situation

end TwinTable
