/-
Histories: a dictionary under any operations, one after another.

An `Operation` is a call that a user of a dictionary can make, with what it hands in; an
`Answer` is what comes back. What a dictionary is used with, the settings and a source of
random words, changes along and makes a `Situation` together with it. Everything that can
be said of "every state of a dictionary" is said of the situations that a list of
operations leads to from a new dictionary (`Situation.after`).

`changes_perform` reduces all of them to the constructors of `Change`: an operation is
some shifts, at most one linking, erasing or clearing, and revisions of values. So whatever
each change keeps, every history keeps (`Situation.after_induction`). An operation that takes
nothing out is made of those changes that do not either (`Gain`, `gains_perform`).
-/
import TwinTable.Dictionary.Cursor
import TwinTable.Dictionary.Walk
import TwinTable.Proofs.Dictionary.Shifting

set_option autoImplicit false

namespace TwinTable

/-! ## Operations and answers -/

/-- What a user can ask of a dictionary. Where an entry is handed out that may be written to,
`set` is what becomes of its value; it is `id` if nothing is written. -/
inductive Operation (κ ν : Type) : Type 1 where
  | add (k : κ) (v : ν)
  /-- Finds or makes the entry of a key. What is written to it may depend on whether it is a
  fresh one. -/
  | claim (k : κ) (set : (fresh : Bool) → Value ν → Value ν)
  | replace (k : κ) (v : ν)
  | find (k : κ) (set : Value ν → Value ν)
  | unlink (k : κ)
  | delete (k : κ)
  | discard (b : Binding κ ν)
  | clear
  | expand (size : Nat)
  | resizeTo (size : Nat)
  | shrinkToFit
  | migrate (n : Nat)
  /-- Moves entries until a clock says stop, which it does after so many rounds. -/
  | migrateFor (rounds : Nat)
  | allowResizing (allowed : Bool)
  | pick
  | pickFairly
  | sample (count : Nat)
  | scan (cursor : UInt64)
  | scanRevising {τ : Type} (f : τ → κ → Value ν → Value ν × τ) (start : τ) (cursor : UInt64)
  | walk
  | safeWalk
  /-- Asks a walk, wherever it stands, for its next entry. -/
  | advance (w : Walk)
  | endWalk (w : Walk)

/-- What a dictionary answers. -/
inductive Answer (κ ν : Type) where
  | done
  | outcome (result : Except Fault Unit)
  | told (yes : Bool)
  | counted (n : Nat)
  /-- The entry of a key as it was before anything was written to it. -/
  | claimed (fresh : Bool) (b : Option (Binding κ ν))
  | entry (b : Option (Binding κ ν))
  | entries (bs : List (Binding κ ν))
  | scanned (bs : List (Binding κ ν)) (next : UInt64)
  | position (w : Walk)
  | advanced (b : Option (Binding κ ν)) (w : Walk)

/-- Whether the entry was made just now. -/
def Claim.isFresh : Claim → Bool
  | .fresh _ => true
  | .taken _ => false

/-- A dictionary and what it is used with. -/
structure Situation (κ ν σ : Type) where
  dictionary : Dictionary κ ν
  settings : Settings
  /-- The state of the source of words. -/
  words : σ

namespace Situation

variable {κ ν σ : Type}

/-- A new dictionary. -/
def start (settings : Settings) (words : σ) : Situation κ ν σ := ⟨.empty, settings, words⟩

/-- The rules that the dictionary goes by. -/
def rules (K : Keying κ ν) (s : Situation κ ν σ) : Rules κ ν := ⟨K, s.settings⟩

variable (K : Keying κ ν) (g : WordSource σ)

/-- Carries an operation out. -/
def perform (s : Situation κ ν σ) : Operation κ ν → Answer κ ν × Situation κ ν σ
  | .add k v =>
    let (e, d) := s.dictionary.add (s.rules K) k v
    (.outcome e, { s with dictionary := d })
  | .claim k set =>
    let (c, d) := s.dictionary.claim (s.rules K) k
    (.claimed c.isFresh <| d.entry? c.place,
      { s with dictionary := d.setAt c.place (set c.isFresh) })
  | .replace k v =>
    let (fresh, d) := s.dictionary.replace (s.rules K) k v
    (.told fresh, { s with dictionary := d })
  | .find k set =>
    match s.dictionary.find (s.rules K) k with
    | (none, d) => (.entry none, { s with dictionary := d })
    | (some p, d) => (.entry <| d.entry? p, { s with dictionary := d.setAt p set })
  | .unlink k =>
    let (b, d) := s.dictionary.unlink (s.rules K) k
    (.entry b, { s with dictionary := d })
  | .delete k =>
    let (e, d) := s.dictionary.delete (s.rules K) k
    (.outcome e, { s with dictionary := d })
  | .discard b => (.done, { s with dictionary := s.dictionary.discard b })
  | .clear =>
    let (turns, d) := s.dictionary.clear
    (.counted turns, { s with dictionary := d })
  | .expand size =>
    let (e, d) := s.dictionary.expand size
    (.outcome e, { s with dictionary := d })
  | .resizeTo size =>
    let (e, d) := s.dictionary.resizeTo (s.rules K) size
    (.outcome e, { s with dictionary := d })
  | .shrinkToFit =>
    let (e, d) := s.dictionary.shrinkToFit (s.rules K)
    (.outcome e, { s with dictionary := d })
  | .migrate n =>
    let (more, d) := s.dictionary.migrate (s.rules K) n
    (.told more, { s with dictionary := d })
  | .migrateFor rounds =>
    let (more, d) := s.dictionary.migrateFor (s.rules K) rounds
    (.told more, { s with dictionary := d })
  | .allowResizing allowed =>
    let (settings, d) := s.dictionary.allowResizing s.settings allowed
    (.done, { s with dictionary := d, settings := settings })
  | .pick =>
    let (b, words, d) := s.dictionary.pick g (s.rules K) s.words
    (.entry b, { s with dictionary := d, words := words })
  | .pickFairly =>
    let (b, words, d) := s.dictionary.pickFairly g (s.rules K) s.words
    (.entry b, { s with dictionary := d, words := words })
  | .sample count =>
    let (bs, words, d) := s.dictionary.sample g (s.rules K) count s.words
    (.entries bs, { s with dictionary := d, words := words })
  | .scan cursor =>
    let (bs, next) := s.dictionary.scan cursor
    (.scanned bs next, s)
  | .scanRevising f start cursor =>
    let (revision, d) := s.dictionary.scanRevising f start cursor
    (.scanned revision.chains.flatten revision.next, { s with dictionary := d })
  | .walk => (.position s.dictionary.walk, s)
  | .safeWalk =>
    let (w, d) := s.dictionary.safeWalk
    (.position w, { s with dictionary := d })
  | .advance w =>
    let (b, w) := w.next s.dictionary
    (.advanced b w, s)
  | .endWalk w =>
    let (e, d) := s.dictionary.endWalk w
    (.outcome e, { s with dictionary := d })

/-- The situation after a row of operations. -/
def after (s : Situation κ ν σ) (ops : List (Operation κ ν)) : Situation κ ν σ :=
  ops.foldl (fun s op => (s.perform K g op).2) s

/-- The situations that a row of operations passes through, the first and the last
included. -/
def passed : Situation κ ν σ → List (Operation κ ν) → List (Situation κ ν σ)
  | s, [] => [s]
  | s, op :: ops => s :: passed (s.perform K g op).2 ops

/-- What the operations of a row answer, each with the situation after it. -/
def replies : Situation κ ν σ → List (Operation κ ν) → List (Answer κ ν × Situation κ ν σ)
  | _, [] => []
  | s, op :: ops => s.perform K g op :: replies (s.perform K g op).2 ops

@[simp] theorem after_nil (s : Situation κ ν σ) : s.after K g [] = s := rfl

@[simp] theorem after_cons (s : Situation κ ν σ) (op : Operation κ ν)
    (ops : List (Operation κ ν)) :
    s.after K g (op :: ops) = (s.perform K g op).2.after K g ops := rfl

/-- No operation changes the seed. -/
theorem seed_perform (s : Situation κ ν σ) (op : Operation κ ν) :
    (s.perform K g op).2.settings.seed = s.settings.seed := by
  cases op with
  | find k set =>
    rw [perform]
    rcases s.dictionary.find (s.rules K) k with ⟨_ | p, d⟩ <;> rfl
  | _ => rfl

theorem seed_after (ops : List (Operation κ ν)) : ∀ s : Situation κ ν σ,
    (s.after K g ops).settings.seed = s.settings.seed := by
  induction ops with
  | nil => intro s; rfl
  | cons op ops ih =>
    intro s
    rw [after_cons, ih, seed_perform]

end Situation

/-! ## Changes -/

namespace Dictionary

variable {κ ν : Type}

/-- A change of a dictionary: a shift, or one of the things that callers do. -/
inductive Change (r : Rules κ ν) : Dictionary κ ν → Dictionary κ ν → Prop
  | shift {d d' : Dictionary κ ν} (h : Shift r.hash d d') : Change r d d'
  /-- A binding is linked for a key that was looked for in vain. -/
  | link {d : Dictionary κ ν} {k : κ} (receiving : (d.side d.receiving).size ≠ 0)
      (absent : d.lookup r k (r.hash k) = none) : Change r d (d.link r k (r.hash k)).2
  /-- A binding is taken out of its chain. -/
  | erase {d : Dictionary κ ν} {p : Place} {b : Binding κ ν} (found : d.entry? p = some b) :
      Change r d (d.modifySide p.side fun t => t.erase p.index p.id)
  /-- Values are revised. -/
  | revise {d d' : Dictionary κ ν} (main : d.main.SameLabels d'.main)
      (target : d.target.SameLabels d'.target) (frontier : d'.frontier = d.frontier)
      (nextId : d'.nextId = d.nextId) (nextArray : d'.nextArray = d.nextArray) : Change r d d'
  /-- Everything goes. -/
  | clear {d : Dictionary κ ν} : Change r d d.clear.2

/-- A change that takes no entry out. -/
inductive Gain (r : Rules κ ν) : Dictionary κ ν → Dictionary κ ν → Prop
  | shift {d d' : Dictionary κ ν} (h : Shift r.hash d d') : Gain r d d'
  | link {d : Dictionary κ ν} {k : κ} (receiving : (d.side d.receiving).size ≠ 0)
      (absent : d.lookup r k (r.hash k) = none) : Gain r d (d.link r k (r.hash k)).2
  | revise {d d' : Dictionary κ ν} (main : d.main.SameLabels d'.main)
      (target : d.target.SameLabels d'.target) (frontier : d'.frontier = d.frontier)
      (nextId : d'.nextId = d.nextId) (nextArray : d'.nextArray = d.nextArray) : Gain r d d'

theorem Gain.change {r : Rules κ ν} {d d' : Dictionary κ ν} (h : Gain r d d') :
    Change r d d' := by
  cases h with
  | shift h => exact .shift h
  | link hroom habsent => exact .link hroom habsent
  | revise hm ht hf hid ha => exact .revise hm ht hf hid ha

/-- Any number of changes. -/
abbrev Changes (r : Rules κ ν) : Dictionary κ ν → Dictionary κ ν → Prop :=
  Relation.ReflTransGen (Change r)

/-- Any number of changes that take no entry out. -/
abbrev Gains (r : Rules κ ν) : Dictionary κ ν → Dictionary κ ν → Prop :=
  Relation.ReflTransGen (Gain r)

variable (r : Rules κ ν)

theorem Gains.changes {r : Rules κ ν} {d d' : Dictionary κ ν} (h : Gains r d d') :
    Changes r d d' :=
  Relation.ReflTransGen.mono (fun _ _ => Gain.change) _ _ h

theorem Gains.of_shifts {r : Rules κ ν} {d d' : Dictionary κ ν} (h : Shifts r.hash d d') :
    Gains r d d' :=
  Relation.ReflTransGen.mono (fun _ _ => .shift) _ _ h

theorem Changes.of_shifts {r : Rules κ ν} {d d' : Dictionary κ ν} (h : Shifts r.hash d d') :
    Changes r d d' :=
  (Gains.of_shifts h).changes

/-! ### What the callers' changes do to the list -/

/-- The binding that is linked for a key. -/
def blankFor (d : Dictionary κ ν) (k : κ) : Binding κ ν :=
  ⟨d.nextId, r.keying.copyKey k, .blank⟩

/-- Linking puts a blank binding into the receiving array, and nothing else happens to the
arrays. -/
theorem link_eq (d : Dictionary κ ν) (k : κ) (hash : UInt64) :
    d.link r k hash =
      (⟨d.receiving, (d.side d.receiving).index hash, d.nextId⟩,
        ({ d with nextId := d.nextId + 1 }.hand (.keyCopied (r.keying.copyKey k))).modifySide
          d.receiving fun t => t.push ((d.side d.receiving).index hash) (d.blankFor r k)) := rfl

theorem side_modifySide_self (d : Dictionary κ ν) (s : Side)
    (f : Buckets κ ν → Buckets κ ν) : (d.modifySide s f).side s = f (d.side s) := by
  cases s <;> rfl

/-- The array that is not changed stays as it is. -/
theorem side_modifySide_of_ne {d : Dictionary κ ν} {s s' : Side} (h : s' ≠ s)
    (f : Buckets κ ν → Buckets κ ν) : (d.modifySide s f).side s' = d.side s' := by
  cases s <;> cases s' <;> first | rfl | exact absurd rfl h

theorem toList_modifySide_perm {d : Dictionary κ ν} {s : Side} {f : Buckets κ ν → Buckets κ ν}
    {b : Binding κ ν} (h : (f (d.side s)).toList.Perm (b :: (d.side s).toList)) :
    (d.modifySide s f).toList.Perm (b :: d.toList) := by
  cases s with
  | main => exact h.append_right _
  | target => exact (h.append_left _).trans List.perm_middle

theorem perm_toList_modifySide {d : Dictionary κ ν} {s : Side} {f : Buckets κ ν → Buckets κ ν}
    {b : Binding κ ν} (h : (d.side s).toList.Perm (b :: (f (d.side s)).toList)) :
    d.toList.Perm (b :: (d.modifySide s f).toList) := by
  cases s with
  | main => exact h.append_right _
  | target => exact (h.append_left _).trans List.perm_middle

/-- A linked binding is one more. -/
theorem toList_link {d : Dictionary κ ν} (hd : d.Shape) (k : κ) (hash : UInt64)
    (ha : (d.side d.receiving).size ≠ 0) :
    (d.link r k hash).2.toList.Perm (d.blankFor r k :: d.toList) := by
  have hi := (hd.side d.receiving).index_lt ha hash
  rw [link_eq]
  refine (toList_modifySide_perm (b := d.blankFor r k) ?_).trans (List.Perm.refl _)
  rw [side_hand]
  exact Buckets.toList_push _ hi

/-- An erased binding is one less. -/
theorem toList_erase {d : Dictionary κ ν} {p : Place} {b : Binding κ ν}
    (h : d.entry? p = some b) :
    d.toList.Perm (b :: (d.modifySide p.side fun t => t.erase p.index p.id).toList) :=
  perm_toList_modifySide (Buckets.toList_erase h)

theorem label_toList {d d' : Dictionary κ ν} (hm : d.main.SameLabels d'.main)
    (ht : d.target.SameLabels d'.target) :
    d'.toList.map Binding.label = d.toList.map Binding.label := by
  rw [toList, toList, List.map_append, List.map_append, hm.toList, ht.toList]

theorem id_toList {d d' : Dictionary κ ν} (hm : d.main.SameLabels d'.main)
    (ht : d.target.SameLabels d'.target) :
    d'.toList.map (·.id) = d.toList.map (·.id) :=
  map_id_of_label (label_toList hm ht)

/-- Events of custody go into the outbox, and that is all. -/
theorem exists_outbox_handAll (cs : List (Custody κ ν)) :
    ∀ d : Dictionary κ ν, ∃ o, d.handAll cs = { d with outbox := o } := by
  induction cs with
  | nil => intro d; exact ⟨d.outbox, rfl⟩
  | cons c cs ih =>
    intro d
    obtain ⟨o, ho⟩ := ih (d.hand c)
    exact ⟨o, ho⟩

theorem exists_outbox_freeChains (chains : List (List (Binding κ ν))) :
    ∀ (i remaining turns : Nat) (d : Dictionary κ ν),
      ∃ o, (d.freeChains chains i remaining turns).2 = { d with outbox := o } := by
  induction chains with
  | nil => intro i remaining turns d; exact ⟨d.outbox, rfl⟩
  | cons chain chains ih =>
    intro i remaining turns d
    rw [freeChains]
    split
    · exact ⟨d.outbox, rfl⟩
    · obtain ⟨o, ho⟩ := exists_outbox_handAll (chain.flatMap Binding.freed) d
      obtain ⟨o', ho'⟩ := ih (i + 1) (remaining - chain.length)
        (if i % bucketsPerTurn = 0 then turns + 1 else turns)
        (d.handAll (chain.flatMap Binding.freed))
      refine ⟨o', ho'.trans ?_⟩
      rw [ho]

/-- Clearing one array takes it away, and touches nothing else but the outbox. -/
theorem clearSide_eq (d : Dictionary κ ν) (s : Side) : ∃ o, (d.clearSide s).2 =
    { d.modifySide s (fun _ => .unallocated) with outbox := o } := by
  unfold clearSide
  exact exists_outbox_freeChains _ _ _ _ _

/-- Clearing leaves no array behind, and touches nothing but them and the outbox. -/
theorem clear_eq (d : Dictionary κ ν) : ∃ o, d.clear.2 =
    { d with main := .unallocated, target := .unallocated, frontier := none, outbox := o } := by
  obtain ⟨o₁, h₁⟩ := d.clearSide_eq .main
  obtain ⟨o₂, h₂⟩ := (d.clearSide .main).2.clearSide_eq .target
  refine ⟨o₂, ?_⟩
  change { ((d.clearSide .main).2.clearSide .target).2 with frontier := none } = _
  rw [h₂, h₁]
  rfl

theorem toList_clear (d : Dictionary κ ν) : d.clear.2.toList = [] := by
  obtain ⟨o, ho⟩ := d.clear_eq
  rw [ho]
  rfl

/-! ### What each change keeps -/

/-- A change inside the two arrays, which leaves sizes and frontier alone and puts nothing
behind the frontier, keeps the layout sound if it keeps the arrays and the handles so. -/
theorem Shape.of_inside {d d' : Dictionary κ ν} (hd : d.Shape) (hm : d'.main.Sound)
    (ht : d'.target.Sound) (hms : d'.main.size = d.main.size)
    (hts : d'.target.size = d.target.size) (hf : d'.frontier = d.frontier)
    (hbehind : ∀ i, d.frontier = some i → ∀ j, d.main.chain j = [] → d'.main.chain j = [])
    (hhandles : (d'.toList.map (·.id)).Nodup) (hissued : ∀ b ∈ d'.toList, b.id < d'.nextId) :
    d'.Shape := by
  refine ⟨hm, ht, ?_, ?_, ?_, hhandles, hissued⟩
  · intro hnone
    refine ht.eq_unallocated ?_
    rw [hts, hd.settled (hf ▸ hnone), Buckets.size_unallocated]
  · intro i hi
    rw [hms, hts]
    exact hd.moving i (hf ▸ hi)
  · intro i hi j hj
    rw [hf] at hi
    exact hbehind i hi j (hd.behind i hi j hj)

theorem Shape.link {d : Dictionary κ ν} (hd : d.Shape) (k : κ) (hash : UInt64)
    (ha : (d.side d.receiving).size ≠ 0) : (d.link r k hash).2.Shape := by
  have hperm := toList_link r hd k hash ha
  have hi := (hd.side d.receiving).index_lt ha hash
  have hpush := (hd.side d.receiving).push (d.blankFor r k) hi
  have hnew : ∀ b ∈ d.toList, b.id ≠ d.nextId := fun b hb => Nat.ne_of_lt (hd.issued b hb)
  have hid : (d.link r k hash).2.nextId = d.nextId + 1 := by
    rw [link_eq]
    rcases d.receiving <;> rfl
  -- the handle of the new binding is the next one, and all others were given out before
  have hhandles : ((d.link r k hash).2.toList.map (·.id)).Nodup := by
    refine ((hperm.map _).nodup_iff).mpr ?_
    rw [List.map_cons, List.nodup_cons]
    refine ⟨?_, hd.handles⟩
    intro hmem
    obtain ⟨b, hb, he⟩ := List.mem_map.mp hmem
    exact hnew b hb he
  have hissued : ∀ b ∈ (d.link r k hash).2.toList, b.id < (d.link r k hash).2.nextId := by
    intro b hb
    rw [hid]
    rcases List.mem_cons.mp (hperm.mem_iff.mp hb) with rfl | hb
    · exact Nat.lt_succ_self _
    · exact Nat.lt_succ_of_lt (hd.issued b hb)
  -- while entries move the target receives, so nothing comes to lie behind the frontier
  by_cases hm : d.migrating = true
  · have hr : d.receiving = .target := by rw [receiving, if_pos hm]
    rw [hr] at hpush
    refine hd.of_inside ?_ ?_ ?_ ?_ ?_ ?_ hhandles hissued <;> rw [link_eq, hr]
    · exact hd.main
    · exact hpush
    · rfl
    · exact Buckets.size_push _ _ _
    · rfl
    · exact fun _ _ j hj => hj
  · have hr : d.receiving = .main := by rw [receiving, if_neg hm]
    have hf : d.frontier = none := migrating_eq_false.mp (by simpa using hm)
    rw [hr] at hpush
    refine hd.of_inside ?_ ?_ ?_ ?_ ?_ ?_ hhandles hissued
    · rw [link_eq, hr]
      exact hpush
    · rw [link_eq, hr]
      exact hd.target
    · rw [link_eq, hr]
      exact Buckets.size_push _ _ _
    · rw [link_eq, hr]
      rfl
    · rw [link_eq, hr]
      rfl
    · intro i hi
      rw [hf] at hi
      exact absurd hi (by simp)

theorem Shape.erase {d : Dictionary κ ν} (hd : d.Shape) {p : Place} {b : Binding κ ν}
    (h : d.entry? p = some b) :
    (d.modifySide p.side fun t => t.erase p.index p.id).Shape := by
  have hperm := toList_erase h
  have herase := (hd.side p.side).erase h
  have hnodup := ((hperm.map (·.id)).nodup_iff).mp hd.handles
  have hhandles := (List.nodup_cons.mp hnodup).2
  have hissued : ∀ x ∈ (d.modifySide p.side fun t => t.erase p.index p.id).toList,
      x.id < d.nextId := fun x hx => hd.issued x (hperm.mem_iff.mpr (List.mem_cons_of_mem _ hx))
  obtain ⟨s, i, id⟩ := p
  cases s with
  | main =>
    refine hd.of_inside herase hd.target (Buckets.size_erase _ _ _) rfl rfl ?_ hhandles hissued
    intro _ _ j hj
    change (d.main.erase i id).chain j = []
    rw [Buckets.chain_erase]
    split
    · rename_i hij
      rw [hij.1, hj, List.eraseP_nil]
    · exact hj
  | target =>
    exact hd.of_inside hd.main herase rfl (Buckets.size_erase _ _ _) rfl (fun _ _ _ hj => hj)
      hhandles hissued

/-- **A change keeps the layout sound.** -/
theorem Shape.change {r : Rules κ ν} {d d' : Dictionary κ ν} (hd : d.Shape)
    (h : Change r d d') : d'.Shape := by
  cases h with
  | shift h => exact hd.shift h
  | link ha _ => exact hd.link r _ _ ha
  | erase h => exact hd.erase h
  | revise hm ht hf hid ha =>
    -- values have no part in the layout: sizes, empty chains and handles are all the same
    have hids := id_toList hm ht
    refine hd.of_inside (hd.main.of_sameLabels hm) (hd.target.of_sameLabels ht) hm.size ht.size
      hf (fun _ _ j hj => hm.chain_eq_nil hj) (hids ▸ hd.handles) ?_
    intro b hb
    have hmem : b.id ∈ d.toList.map (·.id) := by
      rw [← hids]
      exact List.mem_map_of_mem hb
    obtain ⟨x, hx, he⟩ := List.mem_map.mp hmem
    rw [hid, ← he]
    exact hd.issued x hx
  | clear =>
    obtain ⟨o, ho⟩ := d.clear_eq
    rw [ho]
    exact ⟨Buckets.sound_unallocated, Buckets.sound_unallocated, fun _ => rfl, by simp, by simp,
      List.nodup_nil, fun b hb => absurd hb List.not_mem_nil⟩

theorem Shape.changes {r : Rules κ ν} {d d' : Dictionary κ ν} (hd : d.Shape)
    (h : Changes r d d') : d'.Shape := by
  induction h with
  | refl => exact hd
  | tail _ hstep ih => exact ih.change hstep

/-! ### Places that a search finds -/

/-- A place that was found holds an entry with that key, in the bucket of the hash. -/
theorem exists_of_lookup {d : Dictionary κ ν} {k : κ} {hash : UInt64} {p : Place}
    (h : d.lookup r k hash = some p) :
    p.index = (d.side p.side).index hash ∧ ∃ b, b ∈ (d.side p.side).chain p.index ∧
      r.keying.same k b.key = true ∧ b.id = p.id := by
  have hside : ∀ s, d.lookupIn r s k hash = some p →
      p.index = (d.side p.side).index hash ∧ ∃ b, b ∈ (d.side p.side).chain p.index ∧
        r.keying.same k b.key = true ∧ b.id = p.id := by
    intro s hs
    rw [lookupIn, Option.map_eq_some_iff] at hs
    obtain ⟨b, hb, rfl⟩ := hs
    rw [Buckets.find?] at hb
    exact ⟨rfl, b, List.mem_of_find?_eq_some hb,
      List.find?_some (p := fun x : Binding κ ν => r.keying.same k x.key) hb, rfl⟩
  rw [lookup] at h
  by_cases hmoved : d.hasMoved (d.main.index hash) = true
  · rw [if_pos hmoved] at h
    dsimp only at h
    split at h
    · exact hside .target h
    · exact absurd h (by simp)
  · rw [if_neg hmoved] at h
    rcases hmain : d.lookupIn r .main k hash with _ | q
    · rw [hmain] at h
      dsimp only at h
      split at h
      · exact hside .target h
      · exact absurd h (by simp)
    · rw [hmain] at h
      exact hside .main (hmain.trans h)

/-- The entry at a place lies in the bucket and has the handle that the place names. -/
theorem mem_of_entryAt {d : Dictionary κ ν} {p : Place} {b : Binding κ ν}
    (h : d.entry? p = some b) : b ∈ (d.side p.side).chain p.index ∧ b.id = p.id := by
  unfold entry? at h
  refine ⟨List.mem_of_find?_eq_some h, ?_⟩
  simpa using List.find?_some (p := fun b : Binding κ ν => decide (b.id = p.id)) h

/-- No other binding has its handle, so a binding is found where it lies. -/
theorem entryAt_of_mem {d : Dictionary κ ν} (hd : d.Shape) {s : Side} {i : Nat}
    {b : Binding κ ν} (hb : b ∈ (d.side s).chain i) : d.entry? ⟨s, i, b.id⟩ = some b := by
  obtain ⟨x, hx⟩ : ∃ x, d.entry? ⟨s, i, b.id⟩ = some x := by
    rw [← Option.isSome_iff_exists, entry?, List.find?_isSome]
    exact ⟨b, hb, by simp⟩
  obtain ⟨hmem, hid⟩ := mem_of_entryAt hx
  have heq : x = b := List.inj_on_of_nodup_map hd.handles (mem_toList.mpr ⟨s, i, hmem⟩)
    (mem_toList.mpr ⟨s, i, hb⟩) hid
  rw [hx, heq]

/-- So there is an entry to be had at a place that was found. -/
theorem exists_entry?_of_lookup {d : Dictionary κ ν} {k : κ} {hash : UInt64} {p : Place}
    (h : d.lookup r k hash = some p) : ∃ b, d.entry? p = some b := by
  obtain ⟨-, b, hb, -, hid⟩ := exists_of_lookup r h
  rw [← Option.isSome_iff_exists, entry?, List.find?_isSome]
  exact ⟨b, hb, by simpa using hid⟩

/-- The binding that was linked just now is at its place. -/
theorem entry?_link {d : Dictionary κ ν} (hd : d.Shape) (k : κ) {hash : UInt64}
    (ha : (d.side d.receiving).size ≠ 0) :
    Dictionary.entry? (d.link r k hash).2 (d.link r k hash).1 = some (d.blankFor r k) := by
  have hi := (hd.side d.receiving).index_lt ha hash
  rw [link_eq, entry?, side_modifySide_self, side_hand, Buckets.chain_push, if_pos ⟨rfl, hi⟩,
    List.find?_cons_of_pos]
  exact decide_eq_true rfl

/-! ### Room for a new entry -/

/-- The first array is not refused. -/
theorem size_main_expand_first {d : Dictionary κ ν} (hd : d.Shape) (hm : d.migrating = false)
    (h : d.main.size = 0) (size : Nat) : (d.expand size).2.main.size ≠ 0 := by
  obtain ⟨n, -, -, hs⟩ := Buckets.sizeFor_eq size
  have hpos : Buckets.sizeFor size ≠ 0 := by simp [hs]
  have hunallocated := hd.main.eq_unallocated h
  have hrefused : ¬ (d.main.used > size || Buckets.sizeFor size = d.main.size) = true := by
    rw [h, hunallocated]
    simp [Buckets.unallocated, hpos]
  have ha : ¬ d.main.isAllocated = true := fun ha => isAllocated_eq_true.mp ha h
  rw [expand, if_neg (by simp [hm]), if_neg hrefused, if_neg ha]
  change (Buckets.allocate d.nextArray (Buckets.sizeFor size) : Buckets κ ν).size ≠ 0
  rw [Buckets.size_allocate]
  exact hpos

/-- **There is always room.** Before an insertion the array that receives it has buckets. -/
theorem receiving_growIfNeeded {d : Dictionary κ ν} (hd : d.Shape) :
    ((d.growIfNeeded r).side (d.growIfNeeded r).receiving).size ≠ 0 := by
  have hexpand : ∀ (size : Nat) (result : Except Fault Unit) (d' : Dictionary κ ν),
      (d.expand size).2.main.size ≠ 0 → d.expand size = (result, d') → d'.main.size ≠ 0 := by
    intro size result d' h he
    rwa [he] at h
  -- the main array has buckets in any case; the target has some as soon as entries move
  have hmain : (d.growIfNeeded r).main.size ≠ 0 := by
    by_cases hm : d.migrating = true
    · obtain ⟨i, hi⟩ := migrating_eq_true.mp hm
      have hlt := (hd.moving i hi).1
      rw [growIfNeeded, if_pos hm]
      omega
    · by_cases ha : d.main.isAllocated = true
      · have hne := isAllocated_eq_true.mp ha
        have hgrown : ∀ size, (d.expand size).2.main.size ≠ 0 := by
          intro size
          rwa [main_expand hne]
        rw [growIfNeeded, if_neg hm, if_neg (by simp [ha])]
        split_ifs
        · exact hne
        · exact hne
        · split
          · exact hexpand _ _ _ (hgrown _) ‹_›
          · rename_i he
            have hafter := hexpand _ _ _ (hgrown _) he
            exact hafter
        · exact hne
      · have hzero : d.main.size = 0 := by
          by_contra hne
          exact ha (isAllocated_eq_true.mpr hne)
        rw [growIfNeeded, if_neg hm, if_pos (by simp [ha])]
        have hfirst := size_main_expand_first hd (by simpa using hm) hzero Buckets.leastSize
        split
        · exact hexpand _ _ _ hfirst ‹_›
        · rename_i he
          have hafter := hexpand _ _ _ hfirst he
          exact hafter
  have hgrow : Shifts r.hash d (d.growIfNeeded r) := shifts_growIfNeeded hd
  have hshape := hd.shifts hgrow
  rw [receiving]
  split
  · rename_i hm
    obtain ⟨i, hi⟩ := migrating_eq_true.mp hm
    exact (hshape.moving i hi).2.1
  · exact hmain

/-! ### Operations are changes -/

variable {r}

/-- What is revised at one place or along some buckets are values. -/
theorem gain_modifySide {d : Dictionary κ ν} {s : Side} {f : Buckets κ ν → Buckets κ ν}
    (h : (d.side s).SameLabels (f (d.side s))) : Gain r d (d.modifySide s f) := by
  cases s with
  | main => exact .revise h (.refl _) rfl rfl rfl
  | target => exact .revise (.refl _) h rfl rfl rfl

theorem gain_setAt (d : Dictionary κ ν) (p : Place) (f : Value ν → Value ν) :
    Gain r d (d.setAt p f) :=
  gain_modifySide (Buckets.sameLabels_modifyValue _ _ _ _)

theorem gains_handAll (d : Dictionary κ ν) (cs : List (Custody κ ν)) :
    Gains r d (d.handAll cs) :=
  .of_shifts (shifts_handAll cs d)

theorem changes_handAll (d : Dictionary κ ν) (cs : List (Custody κ ν)) :
    Changes r d (d.handAll cs) :=
  (gains_handAll d cs).changes

theorem gains_store (d : Dictionary κ ν) (p : Place) (v : ν) :
    Gains r d (d.store r p v) :=
  (Gains.of_shifts (shifts_hand d _)).tail (gain_setAt _ p _)

/-- What a claim does before it looks for its key: a bucket moves, and there is room for one
more entry. -/
theorem shifts_ready {d : Dictionary κ ν} (hd : d.Shape) :
    Shifts r.hash d ((d.migrateStep r).growIfNeeded r) ∧
      (((d.migrateStep r).growIfNeeded r).side
        ((d.migrateStep r).growIfNeeded r).receiving).size ≠ 0 := by
  have hstep := shifts_migrateStep (r := r) hd
  have hmoved := hd.shifts hstep
  exact ⟨hstep.trans (shifts_growIfNeeded hmoved), receiving_growIfNeeded r hmoved⟩

theorem gains_claim {d : Dictionary κ ν} (hd : d.Shape) (k : κ) :
    Gains r d (d.claim r k).2 := by
  obtain ⟨hready, hroom⟩ := shifts_ready (r := r) hd
  rw [claim]
  dsimp only
  split
  · exact .of_shifts hready
  · rename_i habsent
    exact (Gains.of_shifts hready).tail (.link hroom habsent)

theorem changes_claim {d : Dictionary κ ν} (hd : d.Shape) (k : κ) :
    Changes r d (d.claim r k).2 :=
  (gains_claim hd k).changes

/-- The place of a claim has an entry. -/
theorem exists_entry?_claim (r : Rules κ ν) {d : Dictionary κ ν} (hd : d.Shape) (k : κ) :
    ∃ b, Dictionary.entry? (d.claim r k).2 (d.claim r k).1.place = some b := by
  obtain ⟨hready, hroom⟩ := shifts_ready (r := r) hd
  rw [claim]
  dsimp only
  split
  · rename_i p hfound
    exact exists_entry?_of_lookup r hfound
  · exact ⟨_, entry?_link r (hd.shifts hready) k hroom⟩

theorem gains_add {d : Dictionary κ ν} (hd : d.Shape) (k : κ) (v : ν) :
    Gains r d (d.add r k v).2 := by
  have h := gains_claim (r := r) hd k
  rw [add]
  revert h
  rcases d.claim r k with ⟨p | p, d'⟩
  · intro h
    exact h.trans (gains_store d' p v)
  · exact id

theorem gains_replace {d : Dictionary κ ν} (hd : d.Shape) (k : κ) (v : ν) :
    Gains r d (d.replace r k v).2 := by
  have h := gains_claim (r := r) hd k
  rw [replace]
  revert h
  rcases d.claim r k with ⟨p | p, d'⟩
  · intro h
    exact h.trans (gains_store d' p v)
  · intro h
    dsimp only
    rcases d'.entry? p with _ | old
    · exact h.trans (gains_store d' p v)
    · exact (h.trans (gains_store d' p v)).trans (gains_handAll _ _)

theorem changes_replace {d : Dictionary κ ν} (hd : d.Shape) (k : κ) (v : ν) :
    Changes r d (d.replace r k v).2 :=
  (gains_replace hd k v).changes

theorem lookup_of_find {d : Dictionary κ ν} {k : κ} {p : Place}
    (h : (d.find r k).1 = some p) : (d.find r k).2.lookup r k (r.hash k) = some p := by
  rw [find] at h ⊢
  split at h
  · exact absurd h (by simp)
  · rename_i hne
    rw [if_neg hne]
    exact h

/-- So there is an entry at a place that was found. -/
theorem exists_entry?_of_find {d : Dictionary κ ν} {k : κ} {p : Place}
    (h : (d.find r k).1 = some p) : ∃ b, Dictionary.entry? (d.find r k).2 p = some b :=
  exists_entry?_of_lookup r (lookup_of_find h)

/-- **What unlinking does**: nothing if the search fails, and else it takes out and hands out
the entry that was found. -/
theorem unlink_cases (d : Dictionary κ ν) (k : κ) :
    d.unlink r k = (none, (d.find r k).2) ∨
      ∃ p b, Dictionary.entry? (d.find r k).2 p = some b ∧
        d.unlink r k =
          (some b, (d.find r k).2.modifySide p.side fun t => t.erase p.index p.id) := by
  have hfound : ∀ p, (d.find r k).1 = some p → ∃ b, Dictionary.entry? (d.find r k).2 p = some b :=
    fun p => exists_entry?_of_find
  rw [unlink]
  revert hfound
  rcases d.find r k with ⟨_ | p, d'⟩
  · intro _
    exact .inl rfl
  · intro hfound
    obtain ⟨b, hb⟩ := hfound p rfl
    exact .inr ⟨p, b, hb, by dsimp only; rw [hb]⟩

theorem changes_unlink {d : Dictionary κ ν} (hd : d.Shape) (k : κ) :
    Changes r d (d.unlink r k).2 := by
  have hfind : Changes r d (d.find r k).2 := .of_shifts (shifts_find hd k)
  rcases unlink_cases (r := r) d k with h | ⟨p, b, hb, h⟩
  · rw [h]
    exact hfind
  · rw [h]
    exact hfind.tail (.erase hb)

theorem changes_delete {d : Dictionary κ ν} (hd : d.Shape) (k : κ) :
    Changes r d (d.delete r k).2 := by
  have h := changes_unlink (r := r) hd k
  rw [delete]
  revert h
  rcases d.unlink r k with ⟨_ | b, d'⟩
  · exact id
  · intro h
    exact h.trans (changes_handAll d' _)

/-- Revising a chain leaves its handles and keys as they are. -/
theorem map_label_reviseChain {τ : Type} (f : τ → κ → Value ν → Value ν × τ)
    (c : List (Binding κ ν)) : ∀ s : τ,
      (reviseChain f s c).1.map Binding.label = c.map Binding.label := by
  induction c with
  | nil => intro s; rfl
  | cons b c ih =>
    intro s
    rw [reviseChain, List.map_cons, List.map_cons, ih]
    rfl

theorem gain_reviseBucket {τ : Type} (f : τ → κ → Value ν → Value ν × τ) (s : τ)
    (d : Dictionary κ ν) (b : Cursor.Bucket) :
    Gain r d (d.modifySide b.1 fun t =>
      { t with chains := t.chains.modify b.2 fun _ => (reviseChain f s (d.chainAt b)).1 }) :=
  gain_modifySide (Buckets.sameLabels_modify _ _ _ (map_label_reviseChain f _ s))

theorem gains_reviseBuckets {τ : Type} (f : τ → κ → Value ν → Value ν × τ)
    (buckets : List Cursor.Bucket) : ∀ (before : List (List (Binding κ ν))) (s : τ)
      (d : Dictionary κ ν), Gains r d (reviseBuckets f before buckets s d).2.2 := by
  induction buckets with
  | nil => intro before s d; exact .refl
  | cons b buckets ih =>
    intro before s d
    rw [reviseBuckets]
    exact .head (gain_reviseBucket f s d b) (ih _ _ _)

theorem shifts_endWalk {hash : κ → UInt64} (d : Dictionary κ ν) (w : Walk) :
    Shifts hash d (d.endWalk w).2 := by
  rw [endWalk]
  split_ifs
  · exact .single (.aside rfl rfl rfl rfl rfl)
  · exact .refl
  · exact .refl

end Dictionary

/-- The operations that take entries out. -/
def Operation.TakesOut {κ ν : Type} : Operation κ ν → Prop
  | .unlink _ | .delete _ | .clear => True
  | _ => False

namespace Situation

variable {κ ν σ : Type} (K : Keying κ ν) (g : WordSource σ)

open Dictionary

/-- Any other operation is a row of changes that take no entry out. -/
theorem gains_perform {s : Situation κ ν σ} (hs : s.dictionary.Shape) {op : Operation κ ν}
    (hop : ¬ op.TakesOut) :
    Gains (s.rules K) s.dictionary (s.perform K g op).2.dictionary := by
  cases op with
  | add k v => exact gains_add hs k v
  | claim k set => exact (gains_claim hs k).tail (gain_setAt _ _ _)
  | replace k v => exact gains_replace hs k v
  | find k set =>
    have h := shifts_find (r := s.rules K) hs k
    rw [perform]
    revert h
    rcases s.dictionary.find (s.rules K) k with ⟨_ | p, d⟩
    · exact .of_shifts
    · intro h
      exact (Gains.of_shifts h).tail (gain_setAt d p set)
  | unlink | delete | clear => exact absurd trivial hop
  | discard b => exact gains_handAll _ _
  | expand size => exact .of_shifts (shifts_expand _ size)
  | resizeTo size => exact .of_shifts (shifts_resizeTo hs size)
  | shrinkToFit => exact .of_shifts (shifts_resizeTo hs _)
  | migrate n => exact .of_shifts (shifts_migrate _ hs n)
  | migrateFor rounds => exact .of_shifts (shifts_migrateFor hs rounds)
  | allowResizing allowed => exact .of_shifts (shifts_note _ _)
  | pick => exact .of_shifts (shifts_pick hs g s.words)
  | pickFairly => exact .of_shifts (shifts_pickFairly hs g s.words)
  | sample count => exact .of_shifts (shifts_sample hs g count s.words)
  | scan cursor => exact .refl
  | scanRevising f start cursor => exact gains_reviseBuckets f _ _ _ _
  | walk => exact .refl
  | safeWalk => exact .of_shifts (.single (.aside rfl rfl rfl rfl rfl))
  | advance w => exact .refl
  | endWalk w => exact .of_shifts (shifts_endWalk _ w)

/-- **Every operation is a row of changes.** -/
theorem changes_perform {s : Situation κ ν σ} (hs : s.dictionary.Shape) (op : Operation κ ν) :
    Changes (s.rules K) s.dictionary (s.perform K g op).2.dictionary := by
  by_cases hop : op.TakesOut
  · cases op with
    | unlink k => exact changes_unlink hs k
    | delete k => exact changes_delete hs k
    | clear => exact .single .clear
    | _ => exact hop.elim
  · exact (gains_perform K g hs hop).changes

/-- What every operation keeps, every history keeps. The layout is sound all along, so that
an operation may be taken to start from a sound one. -/
theorem after_induction {P : Situation κ ν σ → Prop}
    (step : ∀ s op, s.dictionary.Shape → P s → P (s.perform K g op).2) :
    ∀ (ops : List (Operation κ ν)) (s : Situation κ ν σ), s.dictionary.Shape → P s →
      P (s.after K g ops) ∧ (s.after K g ops).dictionary.Shape := by
  intro ops
  -- induction on the row of operations, from the front, as `after` takes them
  induction ops with
  | nil => intro s hs hP; exact ⟨hP, hs⟩
  | cons op ops ih =>
    intro s hs hP
    rw [after_cons]
    exact ih _ (hs.changes (changes_perform K g hs op)) (step s op hs hP)

/-- Every history of a new dictionary leaves a sound layout. -/
theorem shape_after (settings : Settings) (words : σ) (ops : List (Operation κ ν)) :
    ((start settings words).after K g ops).dictionary.Shape :=
  (after_induction K g (P := fun _ => True) (fun _ _ _ h => h) ops _ shape_empty trivial).2

end Situation

end TwinTable
