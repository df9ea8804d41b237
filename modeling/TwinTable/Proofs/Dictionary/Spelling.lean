/-
A dictionary in which the case of letters does not matter, and the spellings that it keeps.

Its keys are strings, and two of them are the same if they are equal in lower case. Seen from
outside it is a map from strings in lower case (`Spellings`): to each of them it has a value and
the spelling under which the key came in. Whoever looks for a key gets to see that spelling and
not his own. An operation that finds the key there leaves the spelling as it is, in whatever
spelling it was asked; only an operation that does not find it makes an entry, with its own.

So the spelling that is stored was brought by an operation that did not find the key, and the
key has been there ever since (`brought_after`).
-/
import TwinTable.Proofs.Dictionary.Agreement
import TwinTable.Proofs.Hash.Folding

set_option autoImplicit false

namespace TwinTable

/-! ## Strings whose case does not matter -/

/-- Being equal in lower case is an equivalence, and the hash is that of the lower-case form. -/
theorem Keying.lawful_foldedStrings (ν : Type) : (foldedStrings ν).Lawful where
  same_self _ := sameFolded_bytesOf.mpr rfl
  same_symm _ _ h := sameFolded_bytesOf.mpr (sameFolded_bytesOf.mp h).symm
  same_trans _ _ _ h h' :=
    sameFolded_bytesOf.mpr ((sameFolded_bytesOf.mp h).trans (sameFolded_bytesOf.mp h'))
  hash_same seed a b h := by
    rw [hash_foldedStrings, hash_foldedStrings, sameFolded_bytesOf.mp h]
  same_copyKey _ := sameFolded_bytesOf.mpr rfl

/-! ## The map -/

/-- To each key in lower case its stored spelling and its value. -/
abbrev Spellings (ν : Type) := Finmap fun _ : String => String × Value ν

namespace Spellings

variable {ν : Type}

/-- The entry of a key, in whatever spelling it is asked for. -/
def entry? (m : Spellings ν) (k : String) : Option (String × Value ν) := m.lookup k.toLower

/-- Binds a key, in this spelling. -/
def enter (m : Spellings ν) (k : String) (v : Value ν) : Spellings ν :=
  m.insert k.toLower (k, v)

/-- Changes the value of a key and not its spelling. -/
def revise (m : Spellings ν) (k : String) (f : Value ν → Value ν) : Spellings ν :=
  match m.entry? k with
  | none => m
  | some e => m.insert k.toLower (e.1, f e.2)

/-- Takes a key out. -/
def strike (m : Spellings ν) (k : String) : Spellings ν := m.erase k.toLower

/-- Revises the values of some keys one after another, passing a state along. Returned are the
entries as they were left, and the map. -/
def reviseAlong {τ : Type} (f : τ → String → Value ν → Value ν × τ) :
    τ → List String → Spellings ν → List (String × Value ν) × Spellings ν
  | _, [], m => ([], m)
  | s, k :: keys, m =>
    match m.entry? k with
    | none => reviseAlong f s keys m
    | some e =>
      let (v, s) := f s e.1 e.2
      let (entries, m) := reviseAlong f s keys (m.revise k fun _ => v)
      ((e.1, v) :: entries, m)

/-- The map may answer an operation like this, and is `m'` then. A draw that is in vain
returns nothing, and any other returns an entry if there is one. -/
def Answers (m : Spellings ν) (inVain : Prop) :
    Operation String ν → Answer String ν → (m' : Spellings ν) → Prop
  | .add k v, a, m' =>
    match m.entry? k with
    | none => a = .outcome (.ok ()) ∧ m' = m.enter k (.object v)
    | some _ => a = .outcome (.error .keyExists) ∧ m' = m
  | .claim k set, a, m' =>
    match m.entry? k with
    | none => (∃ b, a = .claimed true (some b) ∧ b.pair = (k, .unsigned 0)) ∧
        m' = m.enter k (set true (.unsigned 0))
    | some e => (∃ b, a = .claimed false (some b) ∧ b.pair = e) ∧ m' = m.revise k (set false)
  | .replace k v, a, m' =>
    match m.entry? k with
    | none => a = .told true ∧ m' = m.enter k (.object v)
    | some _ => a = .told false ∧ m' = m.revise k fun _ => .object v
  | .find k set, a, m' =>
    (∃ b, a = .entry b ∧ b.map Binding.pair = m.entry? k) ∧ m' = m.revise k set
  | .unlink k, a, m' =>
    (∃ b, a = .entry b ∧ b.map Binding.pair = m.entry? k) ∧ m' = m.strike k
  | .delete k, a, m' =>
    match m.entry? k with
    | none => a = .outcome (.error .keyNotFound) ∧ m' = m
    | some _ => a = .outcome (.ok ()) ∧ m' = m.strike k
  | .clear, a, m' => (∃ turns, a = .counted turns) ∧ m' = ∅
  | .pick, a, m' | .pickFairly, a, m' =>
    (∃ b, a = .entry b ∧ (b = none ↔ m = ∅ ∨ inVain) ∧
      ∀ x ∈ b, m.entry? x.key = some x.pair) ∧ m' = m
  | .sample _, a, m' =>
    (∃ bs, a = .entries bs ∧ ∀ x ∈ bs, m.entry? x.key = some x.pair) ∧ m' = m
  | .scan _, a, m' =>
    (∃ bs next, a = .scanned bs next ∧ ∀ x ∈ bs, m.entry? x.key = some x.pair) ∧ m' = m
  | .scanRevising f start _, a, m' =>
    ∃ bs next, a = .scanned bs next ∧ (∀ x ∈ bs, ∃ v, m.entry? x.key = some (x.key, v)) ∧
      m.reviseAlong f start (bs.map (·.key)) = (bs.map Binding.pair, m')
  | .advance _, a, m' =>
    (∃ b w, a = .advanced b w ∧ ∀ x ∈ b, m.entry? x.key = some x.pair) ∧ m' = m
  | .discard _, _, m' | .expand _, _, m' | .resizeTo _, _, m' | .shrinkToFit, _, m'
  | .migrate _, _, m' | .migrateFor _, _, m' | .allowResizing _, _, m' | .walk, _, m'
  | .safeWalk, _, m' | .endWalk _, _, m' => m' = m

/-- The map explains the answers to a row of operations, the first of which finds things as
they are `before` it: each of them is right, and the map has as many keys as the dictionary says
it has. -/
def Explains {σ : Type} (g : WordSource σ) : (before : Situation String ν σ) → Spellings ν →
    List (Operation String ν) → List (Answer String ν × Situation String ν σ) → Prop
  | _, _, [], [] => True
  | before, m, op :: ops, (a, s) :: replies =>
    ∃ m', m.Answers (before.InVain (.foldedStrings ν) g op) op a m' ∧
      s.dictionary.size = m'.keys.card ∧ Explains g s m' ops replies
  | _, _, _, _ => False

/-! ## Ledgers of spellings -/

/-- The keying under which a ledger has the entries of such a map. -/
abbrev Folded (ν : Type) : Keying String ν := .foldedStrings ν

/-- A ledger lists the entries of the map. -/
def Lists (m : Spellings ν) (l : Ledger String ν) : Prop :=
  ∀ k e, m.lookup k = some e ↔ e ∈ l ∧ e.1.toLower = k

theorem same_iff {a b : String} : (Folded ν).same a b = true ↔ b.toLower = a.toLower :=
  Keying.sameFolded_bytesOf.trans eq_comm

theorem lists_nil : Lists (∅ : Spellings ν) [] := by
  intro k e
  simp

variable {m : Spellings ν} {l l' : Ledger String ν}

/-- An entry of the ledger is the entry of its key. -/
theorem Lists.entry?_of_mem (h : m.Lists l) {e : String × Value ν} (he : e ∈ l) :
    m.entry? e.1 = some e :=
  (h _ e).mpr ⟨he, rfl⟩

/-- A search in the ledger finds what the map has. -/
theorem Lists.entryOf?_eq (h : m.Lists l) (k : String) :
    l.entryOf? (Folded ν) k = m.entry? k := by
  rcases hfound : l.entryOf? (Folded ν) k with _ | e
  · rcases hm : m.entry? k with _ | e
    · rfl
    · obtain ⟨he, hlower⟩ := (h _ e).mp hm
      have hother := Ledger.entryOf?_eq_none.mp hfound e he
      exact absurd (same_iff.mpr hlower) (Bool.eq_false_iff.mp hother)
  · rw [Ledger.entryOf?] at hfound
    have hsame := List.find?_some (p := fun e : String × Value ν => (Folded ν).same k e.1) hfound
    exact ((h _ e).mpr ⟨List.mem_of_find?_eq_some hfound, same_iff.mp hsame⟩).symm

/-- The map is empty if nothing is listed. -/
theorem Lists.eq_empty_iff (h : m.Lists l) : m = ∅ ↔ l = [] := by
  constructor
  · rintro rfl
    refine List.eq_nil_iff_forall_not_mem.mpr fun e he => ?_
    have hlookup := (h _ e).mpr ⟨he, rfl⟩
    rw [Finmap.lookup_empty] at hlookup
    exact absurd hlookup (by simp)
  · rintro rfl
    refine Finmap.ext_lookup fun k => ?_
    rw [Finmap.lookup_empty, Option.eq_none_iff_forall_ne_some]
    exact fun e he => absurd ((h k e).mp he).1 List.not_mem_nil

/-- There are as many keys as entries. -/
theorem Lists.card_eq (h : m.Lists l) (hl : l.Distinct (Folded ν)) : m.keys.card = l.length := by
  have hnodup : (l.map fun e => e.1.toLower).Nodup := by
    rw [List.Nodup, List.pairwise_map]
    exact hl.imp fun hab he => Bool.eq_false_iff.mp hab (same_iff.mpr (Eq.symm he))
  rw [← List.length_map fun e : String × Value ν => e.1.toLower,
    ← List.toFinset_card_of_nodup hnodup]
  congr 1
  ext k
  rw [List.mem_toFinset, Finmap.mem_keys, Finmap.mem_iff, List.mem_map]
  exact exists_congr fun e => h k e

/-- A key that is not there is entered in front of the others. -/
theorem Lists.enter (h : m.Lists l) {k : String} (hnone : m.entry? k = none) (v : Value ν) :
    (m.enter k v).Lists (l.enter (Folded ν) k v) := by
  intro k' e
  change (m.insert k.toLower (k, v)).lookup k' = some e ↔ e ∈ (k, v) :: l ∧ e.1.toLower = k'
  rw [List.mem_cons]
  by_cases hk : k' = k.toLower
  · subst hk
    rw [Finmap.lookup_insert]
    constructor
    · rintro ⟨⟩
      exact ⟨.inl rfl, rfl⟩
    · rintro ⟨rfl | he, hlower⟩
      · rfl
      · -- no entry of the ledger has the key
        exact absurd (hnone.symm.trans ((h _ e).mpr ⟨he, hlower⟩)) (by simp)
  · rw [Finmap.lookup_insert_of_ne _ hk, h k' e]
    refine and_congr_left fun hlower => ?_
    constructor
    · exact .inr
    · rintro (rfl | he)
      · exact absurd hlower.symm hk
      · exact he

/-- Of a key that is there only the value is revised. -/
theorem Lists.revise (h : m.Lists l) (k : String) (f : Value ν → Value ν) :
    (m.revise k f).Lists (l.revise (Folded ν) k f) := by
  rcases hm : m.entry? k with _ | x
  · rw [Spellings.revise, hm, Ledger.revise_of_entryOf?_eq_none ((h.entryOf?_eq k).trans hm)]
    exact h
  · obtain ⟨hx, hxk⟩ := (h _ x).mp hm
    rw [Spellings.revise, hm]
    intro k' e
    rw [Ledger.revise, List.mem_map]
    by_cases hk : k' = k.toLower
    · subst hk
      rw [Finmap.lookup_insert]
      constructor
      · rintro ⟨⟩
        exact ⟨⟨x, hx, if_pos (same_iff.mpr hxk)⟩, hxk⟩
      · rintro ⟨⟨y, hy, rfl⟩, hlower⟩
        by_cases hyk : (Folded ν).same k y.1 = true
        · -- it is the one entry of the key
          have hyx : some x = some y := hm.symm.trans ((h _ y).mpr ⟨hy, same_iff.mp hyk⟩)
          rw [if_pos hyk, Option.some.inj hyx]
        · rw [if_neg hyk] at hlower
          exact absurd (same_iff.mpr hlower) hyk
    · rw [Finmap.lookup_insert_of_ne _ hk, h k' e]
      constructor
      · rintro ⟨he, rfl⟩
        exact ⟨⟨e, he, if_neg fun hsame => hk (same_iff.mp hsame)⟩, rfl⟩
      · rintro ⟨⟨y, hy, rfl⟩, rfl⟩
        by_cases hyk : (Folded ν).same k y.1 = true
        · rw [if_pos hyk] at hk
          exact absurd (same_iff.mp hyk) hk
        · rw [if_neg hyk]
          exact ⟨hy, rfl⟩

theorem Lists.strike (h : m.Lists l) (k : String) :
    (m.strike k).Lists (l.strike (Folded ν) k) := by
  intro k' e
  rw [Ledger.strike, List.mem_filter, Bool.not_eq_true', ← Bool.not_eq_true, same_iff,
    Spellings.strike]
  by_cases hk : k' = k.toLower
  · subst hk
    rw [Finmap.lookup_erase]
    constructor
    · rintro ⟨⟩
    · rintro ⟨⟨-, hne⟩, he⟩
      exact absurd he hne
  · rw [Finmap.lookup_erase_ne hk, h k' e]
    constructor
    · rintro ⟨he, rfl⟩
      exact ⟨⟨he, hk⟩, rfl⟩
    · rintro ⟨⟨he, -⟩, hlower⟩
      exact ⟨he, hlower⟩

theorem Lists.reviseAlong {τ : Type} (f : τ → String → Value ν → Value ν × τ)
    (keys : List String) : ∀ {s : τ} {m : Spellings ν} {l : Ledger String ν}, m.Lists l →
      (m.reviseAlong f s keys).1 = (l.reviseAlong (Folded ν) f s keys).1 ∧
        (m.reviseAlong f s keys).2.Lists (l.reviseAlong (Folded ν) f s keys).2 := by
  induction keys with
  | nil => intro s m l h; exact ⟨rfl, h⟩
  | cons k keys ih =>
    intro s m l h
    have hentry := h.entryOf?_eq k
    rcases hm : m.entry? k with _ | e
    · rw [Spellings.reviseAlong, hm, Ledger.reviseAlong, hentry.trans hm]
      exact ih h
    · obtain ⟨hentries, hlists⟩ := ih (s := (f s e.1 e.2).2)
        (h.revise k fun _ => (f s e.1 e.2).1)
      rw [Spellings.reviseAlong, hm, Ledger.reviseAlong_cons f (hentry.trans hm)]
      exact ⟨congrArg _ hentries, hlists⟩

/-- **What the ledger answers, the map answers.** -/
theorem Lists.answers (h : m.Lists l) {inVain : Prop} {op : Operation String ν}
    {a : Answer String ν} (ha : l.Answers (Folded ν) inVain op a l') :
    ∃ m', m.Answers inVain op a m' ∧ m'.Lists l' := by
  have hmem : ∀ {x : Binding String ν}, x.pair ∈ l → m.entry? x.key = some x.pair :=
    fun hx => h.entry?_of_mem hx
  cases op with
  | add k v =>
    revert ha
    simp only [Ledger.Answers, Spellings.Answers, h.entryOf?_eq k]
    rcases hm : m.entry? k with _ | e
    · rintro ⟨rfl, rfl⟩
      exact ⟨_, ⟨rfl, rfl⟩, h.enter hm _⟩
    · rintro ⟨rfl, rfl⟩
      exact ⟨_, ⟨rfl, rfl⟩, h⟩
  | claim k set =>
    revert ha
    simp only [Ledger.Answers, Spellings.Answers, h.entryOf?_eq k]
    rcases hm : m.entry? k with _ | e
    · rintro ⟨hb, rfl⟩
      exact ⟨_, ⟨hb, rfl⟩, h.enter hm _⟩
    · rintro ⟨hb, rfl⟩
      exact ⟨_, ⟨hb, rfl⟩, h.revise k _⟩
  | replace k v =>
    revert ha
    simp only [Ledger.Answers, Spellings.Answers, h.entryOf?_eq k]
    rcases hm : m.entry? k with _ | e
    · rintro ⟨rfl, rfl⟩
      exact ⟨_, ⟨rfl, rfl⟩, h.enter hm _⟩
    · rintro ⟨rfl, rfl⟩
      exact ⟨_, ⟨rfl, rfl⟩, h.revise k _⟩
  | find k set =>
    obtain ⟨hb, rfl⟩ := ha
    exact ⟨_, ⟨h.entryOf?_eq k ▸ hb, rfl⟩, h.revise k set⟩
  | unlink k =>
    obtain ⟨hb, rfl⟩ := ha
    exact ⟨_, ⟨h.entryOf?_eq k ▸ hb, rfl⟩, h.strike k⟩
  | delete k =>
    revert ha
    simp only [Ledger.Answers, Spellings.Answers, h.entryOf?_eq k]
    rcases m.entry? k with _ | e
    · rintro ⟨rfl, rfl⟩
      exact ⟨_, ⟨rfl, rfl⟩, h⟩
    · rintro ⟨rfl, rfl⟩
      exact ⟨_, ⟨rfl, rfl⟩, h.strike k⟩
  | clear =>
    obtain ⟨hturns, rfl⟩ := ha
    exact ⟨_, ⟨hturns, rfl⟩, lists_nil⟩
  | pick | pickFairly =>
    obtain ⟨⟨b, rfl, hnone, hb⟩, rfl⟩ := ha
    rw [← h.eq_empty_iff] at hnone
    exact ⟨_, ⟨⟨b, rfl, hnone, fun x hx => hmem (hb x hx)⟩, rfl⟩, h⟩
  | sample count =>
    obtain ⟨⟨bs, rfl, hbs⟩, rfl⟩ := ha
    exact ⟨_, ⟨⟨bs, rfl, fun x hx => hmem (hbs x hx)⟩, rfl⟩, h⟩
  | scan cursor =>
    obtain ⟨⟨bs, next, rfl, hbs⟩, rfl⟩ := ha
    exact ⟨_, ⟨⟨bs, next, rfl, fun x hx => hmem (hbs x hx)⟩, rfl⟩, h⟩
  | scanRevising f start cursor =>
    obtain ⟨bs, next, rfl, hbs, halong⟩ := ha
    obtain ⟨hentries, hlists⟩ := h.reviseAlong f (bs.map (·.key)) (s := start)
    rw [halong] at hentries hlists
    refine ⟨_, ⟨bs, next, rfl, fun x hx => ?_, Prod.ext hentries rfl⟩, hlists⟩
    obtain ⟨e, he, hkey⟩ := hbs x hx
    have hentry := h.entry?_of_mem he
    rw [hkey] at hentry
    exact ⟨e.2, hentry.trans (congrArg some (Prod.ext hkey rfl))⟩
  | advance w =>
    obtain ⟨⟨b, w, rfl, hb⟩, rfl⟩ := ha
    exact ⟨_, ⟨⟨b, w, rfl, fun x hx => hmem (hb x hx)⟩, rfl⟩, h⟩
  | discard | expand | resizeTo | shrinkToFit | migrate | migrateFor | allowResizing | walk
  | safeWalk | endWalk =>
    obtain rfl := ha
    exact ⟨_, rfl, h⟩

/-- What the ledger explains, the map explains. -/
theorem Lists.explains {σ : Type} {g : WordSource σ} (ops : List (Operation String ν)) :
    ∀ {before : Situation String ν σ} {m : Spellings ν} {l : Ledger String ν}
      {replies : List (Answer String ν × Situation String ν σ)},
      m.Lists l → l.Explains (Folded ν) g before ops replies →
        m.Explains g before ops replies := by
  induction ops with
  | nil =>
    intro before m l replies _ he
    cases replies with
    | nil => trivial
    | cons => exact he
  | cons op ops ih =>
    intro before m l replies h he
    cases replies with
    | nil => exact he
    | cons reply replies =>
      obtain ⟨l', ha, hdistinct, hsize, hrest⟩ := he
      obtain ⟨m', hanswer, hlists⟩ := h.answers ha
      exact ⟨m', hanswer, hsize.trans (hlists.card_eq hdistinct).symm, ih hlists hrest⟩

end Spellings

/-! ## Where a stored key comes from -/

/-- The operations that make an entry for this key if there is none. -/
def Operation.Brings {κ ν : Type} (k : κ) : Operation κ ν → Prop
  | .add k' _ | .claim k' _ | .replace k' _ => k' = k
  | _ => False

namespace Ledger

variable {κ ν : Type} {K : Keying κ ν} {m m' : Ledger κ ν} {e : κ × Value ν}

theorem exists_of_mem_revise {k : κ} {f : Value ν → Value ν} (h : e ∈ m.revise K k f) :
    ∃ x ∈ m, x.1 = e.1 := by
  obtain ⟨x, hx, rfl⟩ := List.mem_map.mp h
  refine ⟨x, hx, ?_⟩
  split <;> rfl

theorem exists_of_mem_reviseAlong {τ : Type} (f : τ → κ → Value ν → Value ν × τ)
    (keys : List κ) : ∀ {s : τ} {m : Ledger κ ν}, e ∈ (m.reviseAlong K f s keys).2 →
      ∃ x ∈ m, x.1 = e.1 := by
  induction keys with
  | nil => intro s m h; exact ⟨e, h, rfl⟩
  | cons k keys ih =>
    intro s m h
    rcases hentry : m.entryOf? K k with _ | x
    · rw [reviseAlong, hentry] at h
      exact ih h
    · rw [reviseAlong_cons f hentry] at h
      obtain ⟨y, hy, hkey⟩ := ih h
      obtain ⟨z, hz, hkey'⟩ := exists_of_mem_revise hy
      exact ⟨z, hz, hkey'.trans hkey⟩

/-- **A key of the map** was in it before, or it was brought just now, and none was there that
is the same. -/
theorem Answers.key_cases {inVain : Prop} {op : Operation κ ν} {a : Answer κ ν}
    (ha : m.Answers K inVain op a m') (he : e ∈ m') : (∃ x ∈ m, x.1 = e.1) ∨
      ∃ k, op.Brings k ∧ e.1 = K.copyKey k ∧ m.entryOf? K k = none := by
  have hentered : ∀ {k : κ} {v : Value ν}, e ∈ m.enter K k v → op.Brings k →
      m.entryOf? K k = none → (∃ x ∈ m, x.1 = e.1) ∨
        ∃ k, op.Brings k ∧ e.1 = K.copyKey k ∧ m.entryOf? K k = none := by
    intro k v hmem hbrings hnone
    rcases List.mem_cons.mp hmem with rfl | hmem
    · exact .inr ⟨k, hbrings, rfl, hnone⟩
    · exact .inl ⟨e, hmem, rfl⟩
  have hstruck : ∀ {k : κ}, e ∈ m.strike K k → ∃ x ∈ m, x.1 = e.1 :=
    fun hmem => ⟨e, List.mem_of_mem_filter hmem, rfl⟩
  cases op with
  | add k v =>
    rw [Answers] at ha
    split at ha
    · exact hentered (ha.2 ▸ he) rfl ‹_›
    · exact .inl ⟨e, ha.2 ▸ he, rfl⟩
  | claim k set =>
    rw [Answers] at ha
    split at ha
    · exact hentered (ha.2 ▸ he) rfl ‹_›
    · exact .inl (exists_of_mem_revise (ha.2 ▸ he))
  | replace k v =>
    rw [Answers] at ha
    split at ha
    · exact hentered (ha.2 ▸ he) rfl ‹_›
    · exact .inl (exists_of_mem_revise (ha.2 ▸ he))
  | find k set => exact .inl (exists_of_mem_revise (ha.2 ▸ he))
  | unlink k => exact .inl (hstruck (ha.2 ▸ he))
  | delete k =>
    rw [Answers] at ha
    split at ha
    · exact .inl ⟨e, ha.2 ▸ he, rfl⟩
    · exact .inl (hstruck (ha.2 ▸ he))
  | clear => exact absurd (ha.2 ▸ he) List.not_mem_nil
  | scanRevising f start cursor =>
    obtain ⟨bs, next, -, -, halong⟩ := ha
    have hmem : e ∈ (m.reviseAlong K f start (bs.map (·.key))).2 := by
      rw [halong]
      exact he
    exact .inl (exists_of_mem_reviseAlong f _ hmem)
  | pick | pickFairly | sample | scan | advance => exact .inl ⟨e, ha.2 ▸ he, rfl⟩
  | discard | expand | resizeTo | shrinkToFit | migrate | migrateFor | allowResizing | walk
  | safeWalk | endWalk =>
    obtain rfl := ha
    exact .inl ⟨e, he, rfl⟩

end Ledger

namespace Situation

variable {κ ν σ : Type} {K : Keying κ ν} (g : WordSource σ)

open Dictionary

theorem after_append (s : Situation κ ν σ) (ops more : List (Operation κ ν)) :
    s.after K g (ops ++ more) = (s.after K g ops).after K g more :=
  List.foldl_append

theorem passed_concat (ops : List (Operation κ ν)) (op : Operation κ ν) :
    ∀ s : Situation κ ν σ, s.passed K g (ops ++ [op]) =
      s.passed K g ops ++ [s.after K g (ops ++ [op])] := by
  induction ops with
  | nil => intro s; rfl
  | cons op' ops ih =>
    intro s
    rw [List.cons_append, passed, passed, ih, List.cons_append, after_cons]

/-- One operation brings at most one key to the dictionary, and only if none was the same. -/
theorem key_cases_perform (hK : K.Lawful) {s : Situation κ ν σ}
    (hs : s.dictionary.Sound K s.settings.seed) (op : Operation κ ν) {b : Binding κ ν}
    (hb : b ∈ (s.perform K g op).2.dictionary.toList) :
    (∃ x ∈ s.dictionary.toList, x.key = b.key) ∨
      ∃ k, op.Brings k ∧ b.key = K.copyKey k ∧
        ∀ x ∈ s.dictionary.toList, K.same k x.key = false := by
  obtain ⟨m', ha, hagrees⟩ := agrees_perform g hK hs (.refl _) op
  rcases ha.key_cases (hagrees.mem hb) with ⟨e, he, hkey⟩ | ⟨k, hbrings, hkey, hnone⟩
  · obtain ⟨x, hx, rfl⟩ := List.mem_map.mp he
    exact .inl ⟨x, hx, hkey⟩
  · exact .inr ⟨k, hbrings, hkey, fun x hx =>
      Ledger.entryOf?_eq_none.mp hnone x.pair (List.mem_map_of_mem hx)⟩

/-- **A stored key was brought** by an operation that found none that is the same, and has been
there ever since. -/
theorem brought_after (hK : K.Lawful) (settings : Settings) (words : σ)
    (ops : List (Operation κ ν)) :
    let s : Situation κ ν σ := start settings words
    ∀ b ∈ (s.after K g ops).dictionary.toList, ∃ before op rest k,
      ops = before ++ op :: rest ∧ op.Brings k ∧ b.key = K.copyKey k ∧
      (∀ x ∈ (s.after K g before).dictionary.toList, K.same k x.key = false) ∧
      ∀ t ∈ ((s.after K g before).perform K g op).2.passed K g rest,
        ∃ x ∈ t.dictionary.toList, x.key = b.key := by
  intro s
  -- induction on the row of operations, from its end
  induction ops using List.reverseRecOn with
  | nil => intro b hb; exact absurd hb List.not_mem_nil
  | append_singleton ops op ih =>
    intro b hb
    have hsound : (s.after K g ops).dictionary.Sound K (s.after K g ops).settings.seed := by
      rw [seed_after]
      exact sound_after g hK settings words ops
    have hb' := hb
    rw [after_append] at hb'
    rcases key_cases_perform g hK hsound op hb' with ⟨x, hx, hkey⟩ | ⟨k, hbrings, hkey, hnone⟩
    · obtain ⟨before, op', rest, k, rfl, hbrings, hcopy, hnone, hsince⟩ := ih x hx
      refine ⟨before, op', rest ++ [op], k, by simp, hbrings, hkey ▸ hcopy, hnone, ?_⟩
      intro t ht
      rw [passed_concat, List.mem_append, List.mem_singleton] at ht
      rcases ht with ht | rfl
      · rw [← hkey]
        exact hsince t ht
      · refine ⟨b, ?_, rfl⟩
        rwa [List.append_assoc, List.cons_append, after_append, after_cons] at hb
    · refine ⟨ops, op, [], k, rfl, hbrings, hkey, hnone, ?_⟩
      intro t ht
      rw [List.mem_singleton.mp ht]
      exact ⟨b, hb', rfl⟩

/-! ## The whole of it -/

/-- **A dictionary in which case does not matter is a map from strings in lower case.**
A message is hashed as if it were in lower case, whatever its length. Keys that are equal in
lower case, and only those, are the same key, and they have one hash under every seed. A map
from lower-case keys explains every reply to every row of operations. And the spelling of a
stored key is the one in which an operation brought it when no spelling of it was there; some
entry has had that spelling ever since. -/
theorem lower_case_explains_replies (ν : Type) (settings : Settings) (words : σ)
    (ops : List (Operation String ν)) :
    let K : Keying String ν := .foldedStrings ν
    let s : Situation String ν σ := start settings words
    (∀ seed message,
      SipHash.hashFolded seed message = SipHash.hash seed (message.map SipHash.lowerByte)) ∧
    (∀ a b, (K.same a b = true ↔ a.toLower = b.toLower) ∧
      (K.same a b = true → ∀ seed, K.hash seed a = K.hash seed b)) ∧
    Spellings.Explains g s ∅ ops (s.replies K g ops) ∧
    ∀ b ∈ (s.after K g ops).dictionary.toList, ∃ before op rest,
      ops = before ++ op :: rest ∧ op.Brings b.key ∧
      (∀ x ∈ (s.after K g before).dictionary.toList, x.key.toLower ≠ b.key.toLower) ∧
      ∀ t ∈ ((s.after K g before).perform K g op).2.passed K g rest,
        ∃ x ∈ t.dictionary.toList, x.key = b.key := by
  intro K s
  have hK : K.Lawful := Keying.lawful_foldedStrings ν
  refine ⟨SipHash.hashFolded_eq, fun a b => ⟨Keying.sameFolded_bytesOf, fun h seed =>
    hK.hash_same seed a b h⟩, ?_, ?_⟩
  · exact Spellings.lists_nil.explains ops
      (explains_replies g hK ops s [] (sound_empty K _) .nil)
  · intro b hb
    obtain ⟨before, op, rest, k, hops, hbrings, hkey, hnone, hsince⟩ :=
      brought_after g hK settings words ops b hb
    -- keys of this kind are stored as they come
    obtain rfl : b.key = k := hkey
    refine ⟨before, op, rest, hops, hbrings, fun x hx hlower => ?_, hsince⟩
    exact Bool.eq_false_iff.mp (hnone x hx) (Keying.sameFolded_bytesOf.mpr hlower.symm)

/-- A replacement in another spelling changes the value and not the spelling. -/
example : ((start .standard 0).after (.foldedStrings String) WordSource.splitMix
    [.add "Host" "a", .replace "HOST" "b"]).dictionary.toList.map Binding.pair =
      [("Host", .object "b")] := by
  decide +kernel

end Situation

end TwinTable
