/-
A store is a plain map from strings to strings.

`Contents` is what a client thinks it talks to: a finite map without buckets, hashes or
moves. `Contents.Answers` says which response to a request is right, and `Contents.meet`
what the map is afterwards, in the words of the requests themselves.

A store holds a map (`Store.Holds`) if its dictionary is sound and binds exactly the keys of
the map, each to its text as an object. This is kept by whatever happens to a store: by each
command, by a run of the upkeep however little time it has, by a change of the settings. So
the answers are those of the map, and the moves and new sizes that nearly every command
brings about are not to be seen in them.

Only one answer depends on the source of random words. A random key is one of the map whatever
the words are, but a draw may miss with all its tries, and then it returns none although there
are keys. The map does not see the words, so it is told of such a draw; nothing else is asked of
a source, and SplitMix never comes to one (`Store.Holds.exists_firstHit_splitMix`).
-/
import TwinTable.Proofs.Dictionary.Agreement
import TwinTable.Service.Session

set_option autoImplicit false

namespace TwinTable

/-! ## Ledgers of texts -/

namespace Ledger

variable {l l' : Ledger String String} {m : Finmap fun _ : String => String}

/-- The keying of strings, under which keys are the same only if they are equal. -/
abbrev Texts : Keying String String := .strings String

/-- A ledger spells out a map of texts: its entries are those of the map, as objects. -/
def Spells (l : Ledger String String) (m : Finmap fun _ : String => String) : Prop :=
  ∀ key value, (key, value) ∈ l ↔ ∃ text, value = .object text ∧ m.lookup key = some text

theorem Spells.of_perm (h : l.Spells m) (hp : List.Perm l' l) : l'.Spells m := fun key value =>
  hp.mem_iff.trans (h key value)

theorem spells_nil : Spells [] ∅ := by
  intro key value
  simp

/-- A search in the ledger finds what the map has. -/
theorem Spells.entryOf?_eq (h : l.Spells m) (key : String) :
    l.entryOf? Texts key = (m.lookup key).map fun text => (key, .object text) := by
  rcases hfound : l.entryOf? Texts key with _ | ⟨key', value⟩
  · rcases hm : m.lookup key with _ | text
    · rfl
    · have hmem := (h key (.object text)).mpr ⟨text, rfl, hm⟩
      exact absurd (entryOf?_eq_none.mp hfound _ hmem) (by simp [Texts, Keying.strings])
  · rw [entryOf?] at hfound
    have hmem := List.mem_of_find?_eq_some hfound
    have hsame := List.find?_some (p := fun e : String × Value String => Texts.same key e.1) hfound
    obtain rfl : key = key' := beq_iff_eq.mp hsame
    obtain ⟨text, rfl, hm⟩ := (h key value).mp hmem
    rw [hm]
    rfl

/-- The keys of the entries are those of the map, each once. -/
theorem Spells.keys (h : l.Spells m) (hl : l.Distinct Texts) :
    (l.map Prod.fst).Nodup ∧ ∀ key, key ∈ l.map Prod.fst ↔ key ∈ m := by
  refine ⟨?_, fun key => ?_⟩
  · rw [List.Nodup, List.pairwise_map]
    exact hl.imp fun hab => by simpa [Texts, Keying.strings] using hab
  · rw [Finmap.mem_iff]
    constructor
    · intro hmem
      obtain ⟨e, he, rfl⟩ := List.mem_map.mp hmem
      obtain ⟨text, -, hm⟩ := (h e.1 e.2).mp he
      exact ⟨text, hm⟩
    · rintro ⟨text, hm⟩
      exact List.mem_map_of_mem ((h key (.object text)).mpr ⟨text, rfl, hm⟩)

/-- There are as many entries as keys of the map. -/
theorem Spells.length_eq (h : l.Spells m) (hl : l.Distinct Texts) : l.length = m.keys.card := by
  obtain ⟨hnodup, hmem⟩ := h.keys hl
  rw [← List.length_map Prod.fst, ← List.toFinset_card_of_nodup hnodup]
  congr 1
  ext key
  rw [List.mem_toFinset, hmem, Finmap.mem_keys]

theorem mem_revise {key : String} {f : Value String → Value String} {e : String × Value String} :
    e ∈ l.revise Texts key f ↔ ∃ x ∈ l, (if key = x.1 then (x.1, f x.2) else x) = e := by
  simp [revise, Texts, Keying.strings]

theorem mem_strike {key : String} {e : String × Value String} :
    e ∈ l.strike Texts key ↔ e ∈ l ∧ key ≠ e.1 := by
  simp [strike, Texts, Keying.strings]

/-- **Binding a key** in the ledger, whether it is there or not, binds it in the map. -/
theorem Spells.replace (h : l.Spells m) {inVain : Prop} {key text : String}
    {fresh : Answer String String} (ha : l.Answers Texts inVain (.replace key text) fresh l') :
    l'.Spells (m.insert key text) := by
  have hentry := h.entryOf?_eq key
  intro key' value
  rw [Ledger.Answers] at ha
  rcases hm : m.lookup key with _ | old
  · rw [hm] at hentry
    rw [hentry] at ha
    obtain ⟨-, rfl⟩ := ha
    -- a new entry stands in front, and the others have other keys
    change (key', value) ∈ (key, Value.object text) :: l ↔ _
    rw [List.mem_cons, h key' value]
    by_cases hk : key' = key
    · subst hk
      rw [Finmap.lookup_insert, hm]
      simp
    · rw [Finmap.lookup_insert_of_ne _ hk]
      simp [hk]
  · rw [hm] at hentry
    rw [hentry] at ha
    obtain ⟨-, rfl⟩ := ha
    rw [mem_revise]
    by_cases hk : key' = key
    · subst hk
      rw [Finmap.lookup_insert]
      constructor
      · rintro ⟨x, hx, hxe⟩
        split at hxe
        · exact ⟨text, (congrArg Prod.snd hxe).symm, rfl⟩
        · rename_i hne
          exact absurd (congrArg Prod.fst hxe).symm hne
      · rintro ⟨text', rfl, htext⟩
        obtain rfl : text = text' := by simpa using htext
        exact ⟨_, (h key' (.object old)).mpr ⟨old, rfl, hm⟩, if_pos rfl⟩
    · rw [Finmap.lookup_insert_of_ne _ hk, ← h key' value]
      constructor
      · rintro ⟨x, hx, hxe⟩
        split at hxe
        · rename_i heq
          exact absurd ((congrArg Prod.fst hxe).symm.trans heq.symm) hk
        · exact hxe ▸ hx
      · intro hmem
        exact ⟨_, hmem, if_neg fun heq => hk heq.symm⟩

/-- **Striking a key** takes it out of the map. -/
theorem Spells.strike (h : l.Spells m) (key : String) :
    Spells (l.strike Texts key) (m.erase key) := by
  intro key' value
  rw [mem_strike, h key' value]
  by_cases hk : key' = key
  · subst hk
    rw [Finmap.lookup_erase]
    simp
  · rw [Finmap.lookup_erase_ne hk]
    simp [Ne.symm hk]

end Ledger

namespace Service

open Wire

/-! ## What a client sees -/

/-- What a store is to its clients. -/
abbrev Contents := Finmap fun _ : String => String

/-- What happens to a store. -/
inductive Event where
  | request (arguments : List String)
  /-- A run of the upkeep that has time for so many rounds. -/
  | upkeep (rounds : Nat)
  | allowResizing (allowed : Bool)
  /-- The notices are collected, as they are after each request of a session. -/
  | collect

namespace Contents

/-- The right responses to a request. A random key is a key of the map, and there is none if the
map is empty or the draw is in vain. A report or a page of keys is of no concern to the map, but
what is no command is refused. -/
def Answers (m : Contents) (inVain : Prop) : List String → Response → Prop
  | ["get", key], a | ["del", key], a =>
    match m.lookup key with
    | some text => a = .ofText Response.okay text
    | none => a = ⟨Response.absent, .empty⟩
  | ["set", _, value], a => a = .ofText Response.okay value
  | ["dbsize"], a => a = .ofText Response.okay (toString m.keys.card)
  | ["randomkey"], a =>
    (m = ∅ ∨ inVain) ∧ a = ⟨Response.absent, .empty⟩ ∨
      ¬ inVain ∧ ∃ key ∈ m, a = .ofText Response.okay key
  | ["stats"], a => a.status = Response.okay
  | ["scan", _], a | ["scan", _, _], a =>
    a.status = Response.okay ∨ a.status = Response.refused
  | _, a => a.status = Response.refused

/-- The map after an event. Two requests change it. -/
def meet (m : Contents) : Event → Contents
  | .request ["set", key, value] => m.insert key value
  | .request ["del", key] => m.erase key
  | _ => m

/-- The map after a row of events. -/
def after (m : Contents) (events : List Event) : Contents := events.foldl meet m

/-- A draw that is not in vain hands out a key of the map, unless there are none. -/
theorem Answers.randomKey {m : Contents} {inVain : Prop} {a : Response}
    (ha : m.Answers inVain ["randomkey"] a) (hits : m ≠ ∅ → ¬ inVain) :
    (a = ⟨Response.absent, .empty⟩ ↔ m = ∅) ∧
      (m ≠ ∅ → ∃ key ∈ m, a = .ofText Response.okay key) := by
  rcases ha with ⟨hnone, rfl⟩ | ⟨-, key, hkey, rfl⟩
  · have hempty : m = ∅ := by
      by_contra hne
      exact hits hne (hnone.resolve_left hne)
    exact ⟨iff_of_true rfl hempty, fun hne => absurd hempty hne⟩
  · have hne : m ≠ ∅ := by
      rintro rfl
      exact Finmap.notMem_empty hkey
    have hstatus : Response.okay ≠ Response.absent := by decide
    exact ⟨iff_of_false (fun h => hstatus (congrArg Response.status h)) hne,
      fun _ => ⟨key, hkey, rfl⟩⟩

end Contents

/-! ## Commands by name -/

namespace Command

variable {σ : Type}

/-- The first argument of a request for a command. -/
def name : Command → String
  | .get _ => "get"
  | .delete _ => "del"
  | .set _ _ => "set"
  | .size => "dbsize"
  | .report => "stats"
  | .randomKey => "randomkey"
  | .scan _ _ => "scan"

theorem exists_of_scanOf {cursor : String} {count : Option String} {c : Command}
    (h : scanOf cursor count = .ok c) : ∃ cursor count, c = .scan cursor count := by
  unfold scanOf at h
  dsimp only at h
  generalize (match count with
    | some text => Text.Numeral.read? Text.Numeral.max64 text
    | none => some defaultCount) = count? at h
  split at h
  · exact ⟨_, _, (Except.ok.inj h).symm⟩
  · exact absurd h (by simp)

theorem head?_of_ofArguments {arguments : List String} {c : Command}
    (h : ofArguments arguments = .ok c) : arguments.head? = some c.name := by
  unfold ofArguments at h
  split at h
  case h_7 | h_8 =>
    obtain ⟨cursor, count, rfl⟩ := exists_of_scanOf h
    rfl
  case h_9 => exact absurd h (by simp)
  all_goals
    obtain rfl := Except.ok.inj h
    rfl

/-- There is one way to ask for each of the two commands that change the keys. -/
theorem eq_of_set {arguments : List String} {key value : String}
    (h : ofArguments arguments = .ok (.set key value)) : arguments = ["set", key, value] := by
  unfold ofArguments at h
  split at h
  case h_3 =>
    obtain ⟨rfl, rfl⟩ := Command.set.inj (Except.ok.inj h)
    rfl
  case h_7 | h_8 =>
    obtain ⟨cursor, count, hscan⟩ := exists_of_scanOf h
    exact Command.noConfusion hscan
  case h_9 => exact absurd h (by simp)
  all_goals exact Command.noConfusion (Except.ok.inj h)

theorem eq_of_delete {arguments : List String} {key : String}
    (h : ofArguments arguments = .ok (.delete key)) : arguments = ["del", key] := by
  unfold ofArguments at h
  split at h
  case h_2 =>
    obtain rfl := Command.delete.inj (Except.ok.inj h)
    rfl
  case h_7 | h_8 =>
    obtain ⟨cursor, count, hscan⟩ := exists_of_scanOf h
    exact Command.noConfusion hscan
  case h_9 => exact absurd h (by simp)
  all_goals exact Command.noConfusion (Except.ok.inj h)

/-- What was understood is not refused. -/
theorem status_run (c : Command) (s : Store σ) : (c.run s).1.status ≠ Response.refused := by
  have hfound : ∀ text, (found text).status ≠ Response.refused := by
    rintro (_ | text)
    · decide
    · change Response.okay ≠ Response.refused
      decide
  cases c with
  | get key => exact hfound (s.get key).1
  | delete key => exact hfound (s.delete key).1
  | randomKey => exact hfound s.randomKey.1
  | set | size | report | scan =>
    change Response.okay ≠ Response.refused
    decide

/-- Three commands only look. -/
theorem run_eq_self {c : Command} (s : Store σ) (h : c.name ∈ ["scan", "stats", "dbsize"]) :
    (c.run s).2 = s := by
  cases c with
  | size | report | scan => rfl
  | get | delete | set | randomKey => exact absurd h (by simp [name])

end Command

namespace Store

variable {σ : Type}

/-- A store after an event. -/
def meet (s : Store σ) : Event → Store σ
  | .request arguments => (s.answer arguments).2
  | .upkeep rounds => { s with rounds := rounds }.upkeep.2
  | .allowResizing allowed => s.allowResizing allowed
  | .collect => s.collect.2

/-- A store after a row of events. -/
def after (s : Store σ) (events : List Event) : Store σ := events.foldl meet s

/-! ## Stores that hold a map -/

/-- A store holds a map. -/
structure Holds (s : Store σ) (m : Contents) : Prop where
  sound : s.dictionary.Sound Ledger.Texts s.settings.seed
  spells : Ledger.Spells (s.dictionary.toList.map Binding.pair) m

theorem holds_empty (settings : Settings) (rounds : Nat) (g : WordSource σ) (words : σ) :
    (empty settings rounds g words).Holds ∅ :=
  ⟨Dictionary.sound_empty _ _, Ledger.spells_nil⟩

open Dictionary

variable {s : Store σ} {m : Contents}

theorem Holds.lawful (_ : s.Holds m) : s.rules.keying.Lawful := Keying.lawful_strings String

/-- The ledger that a dictionary agrees with without any change of order. -/
theorem Holds.agrees (_ : s.Holds m) :
    s.dictionary.Agrees (s.dictionary.toList.map Binding.pair) := .refl _

/-- Of shifts nothing is to be seen. -/
theorem Holds.of_shifts (h : s.Holds m) {s' : Store σ}
    (hseed : s'.settings.seed = s.settings.seed)
    (hshifts : Shifts s.rules.hash s.dictionary s'.dictionary) : s'.Holds m := by
  refine ⟨?_, h.spells.of_perm ?_⟩
  · rw [hseed]
    exact h.sound.of_shifts h.lawful hshifts
  · exact (Shifts.toList_perm h.sound.shape hshifts).1.map _

theorem Holds.size_eq (h : s.Holds m) : s.size = m.keys.card := by
  rw [← h.spells.length_eq (h.agrees.distinct h.lawful h.sound)]
  exact h.agrees.size_eq h.sound.shape

theorem Holds.isEmpty_iff (h : s.Holds m) : s.dictionary.isEmpty = true ↔ m = ∅ := by
  have hsize : s.dictionary.size = m.keys.card := h.size_eq
  rw [Dictionary.isEmpty, decide_eq_true_iff, hsize, Finset.card_eq_zero]
  constructor
  · intro hkeys
    refine Finmap.ext_lookup fun key => ?_
    rw [Finmap.lookup_empty, Finmap.lookup_eq_none, ← Finmap.mem_keys, hkeys]
    exact Finset.notMem_empty key
  · rintro rfl
    exact Finmap.keys_empty

/-- The entries of the dictionary have the keys of the map, each once. -/
theorem Holds.keys (h : s.Holds m) :
    (s.dictionary.toList.map Binding.key).Nodup ∧
      ∀ key, key ∈ s.dictionary.toList.map Binding.key ↔ key ∈ m := by
  have hkeys := h.spells.keys (h.agrees.distinct h.lawful h.sound)
  rwa [List.map_map] at hkeys

/-! ### Keys and values -/

/-- **Getting** a key looks it up; a bucket may move along, of which nothing is seen. -/
theorem Holds.get (h : s.Holds m) (key : String) :
    (s.get key).1 = m.lookup key ∧ (s.get key).2.Holds m := by
  have hentry := h.spells.entryOf?_eq key
  obtain ⟨-, hd', hcase⟩ := Agrees.find (r := s.rules) h.lawful h.sound h.agrees key
  refine ⟨?_, h.of_shifts rfl (shifts_find h.sound.shape key)⟩
  change ((s.dictionary.find s.rules key).1.bind
    (Dictionary.entry? (s.dictionary.find s.rules key).2)).bind
      (fun b => b.value.object?) = m.lookup key
  rcases hcase with ⟨hnone, habsent⟩ | ⟨p, b, hp, hb, hkey⟩
  · rw [hnone]
    rcases hm : m.lookup key with _ | text
    · rfl
    · rw [hm] at hentry
      exact absurd (habsent.symm.trans hentry) (by simp)
  · obtain rfl : key = b.key := beq_iff_eq.mp hkey
    obtain ⟨text, hvalue, hm⟩ := (h.spells b.key b.value).mp (hd'.mem (mem_toList_of_entryAt hb))
    rw [hp, Option.bind_some, hb, Option.bind_some, hvalue, hm]
    rfl

/-- **Setting** a key binds it, whether it was there or not. -/
theorem Holds.set (h : s.Holds m) (key value : String) :
    (s.set key value).2.Holds (m.insert key value) := by
  obtain ⟨l, hanswer, hagrees⟩ :=
    Agrees.replace (r := s.rules) False h.lawful h.sound h.agrees key value
  have hchanges := changes_replace (r := s.rules) h.sound.shape key value
  have hsound := h.sound.of_changes h.lawful hchanges
  exact ⟨hsound, (h.spells.replace hanswer).of_perm hagrees⟩

/-- **Deleting** a key hands out the text that it had. -/
theorem Holds.delete (h : s.Holds m) (key : String) :
    (s.delete key).1 = m.lookup key ∧ (s.delete key).2.Holds (m.erase key) := by
  have hentry := h.spells.entryOf?_eq key
  obtain ⟨hfound, hagrees⟩ := Agrees.unlink (r := s.rules) h.lawful h.sound h.agrees key
  have hsound := h.sound.of_changes (r := s.rules) h.lawful
    (changes_unlink h.sound.shape key)
  have hstruck := h.spells.strike key
  replace hfound := hfound.trans hentry
  rw [Store.delete, withDictionary]
  revert hfound hagrees hsound
  rcases s.dictionary.unlink s.rules key with ⟨_ | b, d⟩
  · intro hagrees hsound hfound
    refine ⟨?_, hsound, hstruck.of_perm hagrees⟩
    rcases hm : m.lookup key with _ | text
    · rfl
    · rw [hm] at hfound
      exact absurd hfound (by simp)
  · intro hagrees hsound hfound
    refine ⟨?_, ?_, hstruck.of_perm (hagrees.handAll _)⟩
    · -- the binding that came out is the entry of the map, and its value an object
      rcases hm : m.lookup key with _ | text
      · rw [hm] at hfound
        exact absurd hfound (by simp)
      · rw [hm] at hfound
        have hvalue : b.value = .object text := congrArg Prod.snd (Option.some.inj hfound)
        change b.value.object? = some text
        rw [hvalue]
        rfl
    · exact hsound.of_shifts h.lawful (shifts_handAll _ _)

/-- **A random key** is one of the map, whatever the source. There is none if the map is empty or
the draw is in vain, and only then. -/
theorem Holds.randomKey (h : s.Holds m) :
    (s.randomKey.1 = none ↔ m = ∅ ∨ s.dictionary.PickInVain s.source s.rules s.words) ∧
      (∀ key, s.randomKey.1 = some key → key ∈ m) ∧ s.randomKey.2.Holds m := by
  have hshifts := shifts_pick (r := s.rules) h.sound.shape s.source s.words
  have hafter : s.randomKey.2.Holds m := h.of_shifts rfl hshifts
  have hkey : s.randomKey.1 =
      (s.dictionary.pick s.source s.rules s.words).1.map fun b => b.key := rfl
  refine ⟨?_, fun key hsome => ?_, hafter⟩
  · rw [hkey, Option.map_eq_none_iff, h.sound.shape.pick_eq_none, h.isEmpty_iff]
  · rw [hkey] at hsome
    obtain ⟨b, hb, rfl⟩ := Option.map_eq_some_iff.mp hsome
    -- what was picked is still there when the bucket has moved along
    have hmem : b.pair ∈ s.randomKey.2.dictionary.toList.map Binding.pair :=
      List.mem_map_of_mem (mem_of_pick _ _ _ hb)
    obtain ⟨text, -, hm⟩ := (hafter.spells b.key b.value).mp hmem
    exact Finmap.mem_of_lookup_eq_some hm

/-- **SplitMix comes to a key in time** if there is one, from every state. -/
theorem Holds.exists_firstHit_splitMix (h : s.Holds m) (hne : m ≠ ∅) (words : UInt64) :
    ∃ t < patience, (s.dictionary.migrateStep s.rules).FirstHit .splitMix words t := by
  have hsome : s.dictionary.isEmpty = false :=
    Bool.eq_false_iff.mpr fun hempty => hne (h.isEmpty_iff.mp hempty)
  have hmoved : (s.dictionary.migrateStep s.rules).Shape :=
    h.sound.shape.shifts (shifts_migrateStep h.sound.shape)
  exact hmoved.exists_firstHit_splitMix (h.sound.shape.toList_migrateStep_ne_nil hsome) words

/-! ### Upkeep -/

theorem shifts_shrink (r : Rules String String) {d : Dictionary String String} (hd : d.Shape) :
    Shifts r.hash d (shrink r d) := by
  have hP := steady_shifts r d
  have hresized := hP.resizeTo (max (d.note (.shrinking d.size d.slots)).main.used
    Buckets.leastSize) (hP.note (.shrinking d.size d.slots) ⟨hd, .refl⟩)
  rw [shrink, shrinkToFit]
  revert hresized
  rcases (d.note (.shrinking d.size d.slots)).resizeTo r _ with ⟨_ | _, d'⟩
  · intro hresized
    exact (hP.note _ hresized).2
  · exact And.right

/-- **The upkeep** moves entries along or begins to shrink the table, and the map stays as it is. -/
theorem Holds.upkeep (h : s.Holds m) : s.upkeep.2.Holds m := by
  refine h.of_shifts rfl ?_
  rw [Store.upkeep, withDictionary]
  dsimp only
  split
  · exact (shifts_migrateFor (r := s.rules) h.sound.shape s.rounds).trans (shifts_note _ _)
  · dsimp only
    split
    · exact shifts_shrink s.rules h.sound.shape
    · exact .refl

theorem Holds.allowResizing (h : s.Holds m) (allowed : Bool) : (s.allowResizing allowed).Holds m :=
  h.of_shifts rfl (shifts_note _ _)

theorem Holds.collect (h : s.Holds m) : s.collect.2.Holds m :=
  h.of_shifts rfl (.single (.aside rfl rfl rfl rfl rfl))

/-! ## Requests -/

/-- The response that hands out the text of a key is the right one. -/
theorem found_lookup (m : Contents) (key : String) :
    match m.lookup key with
    | some text => Command.found (m.lookup key) = .ofText Response.okay text
    | none => Command.found (m.lookup key) = ⟨Response.absent, .empty⟩ := by
  rcases m.lookup key with _ | text <;> rfl

/-- A scan is answered with a page or refused, and the store is as it was. -/
theorem answer_of_scanOf (s : Store σ) {arguments : List String} {cursor : String}
    {count : Option String} (h : Command.ofArguments arguments = Command.scanOf cursor count) :
    ((s.answer arguments).1.status = Response.okay ∨
        (s.answer arguments).1.status = Response.refused) ∧ (s.answer arguments).2 = s := by
  rw [answer, h]
  rcases hc : Command.scanOf cursor count with e | c
  · exact ⟨.inr rfl, rfl⟩
  · obtain ⟨cursor, count, rfl⟩ := Command.exists_of_scanOf hc
    exact ⟨.inl rfl, rfl⟩

/-- After a request the store holds the map that there is then. -/
theorem Holds.answered (h : s.Holds m) (arguments : List String) :
    (s.answer arguments).2.Holds (m.meet (.request arguments)) := by
  unfold Contents.meet
  split
  · rename_i key value he
    obtain rfl := Event.request.inj he
    exact h.set key value
  · rename_i key he
    obtain rfl := Event.request.inj he
    exact (h.delete key).2
  · -- no other command changes the map
    rename_i hset hdel
    rw [Store.answer]
    split
    · rename_i c hc
      cases c with
      | get key => exact (h.get key).2
      | set key value =>
        exact absurd (congrArg Event.request (Command.eq_of_set hc)) (hset key value)
      | delete key => exact absurd (congrArg Event.request (Command.eq_of_delete hc)) (hdel key)
      | randomKey =>
        exact h.of_shifts rfl (shifts_pick (r := s.rules) h.sound.shape s.source s.words)
      | size | report | scan => exact h
    · exact h

/-- **A request is answered as the map answers it**, whatever the source of words, and the store
holds the map that there is then. -/
theorem Holds.answer (h : s.Holds m) (arguments : List String) :
    m.Answers (s.dictionary.PickInVain s.source s.rules s.words) arguments
        (s.answer arguments).1 ∧
      (s.answer arguments).2.Holds (m.meet (.request arguments)) := by
  refine ⟨?_, h.answered arguments⟩
  unfold Contents.Answers
  split
  · rename_i key
    change match m.lookup key with
      | some text => Command.found (s.get key).1 = .ofText Response.okay text
      | none => Command.found (s.get key).1 = ⟨Response.absent, .empty⟩
    rw [(h.get key).1]
    exact found_lookup m key
  · rename_i key
    change match m.lookup key with
      | some text => Command.found (s.delete key).1 = .ofText Response.okay text
      | none => Command.found (s.delete key).1 = ⟨Response.absent, .empty⟩
    rw [(h.delete key).1]
    exact found_lookup m key
  · rfl
  · change Response.ofText Response.okay (toString s.size) = _
    rw [h.size_eq]
  · change _ ∧ Command.found s.randomKey.1 = _ ∨
      _ ∧ ∃ key ∈ m, Command.found s.randomKey.1 = _
    obtain ⟨hnone, hmem, -⟩ := h.randomKey
    rcases hkey : s.randomKey.1 with _ | key
    · exact .inl ⟨hnone.mp hkey, rfl⟩
    · refine .inr ⟨fun hvain => ?_, key, hmem key hkey, rfl⟩
      exact absurd (hkey.symm.trans (hnone.mpr (.inr hvain))) (by simp)
  · rfl
  · rename_i cursor
    have hscan : Command.ofArguments ["scan", cursor] = Command.scanOf cursor none := by
      rw [Command.ofArguments]
    exact (answer_of_scanOf s hscan).1
  · rename_i cursor count
    have hscan : Command.ofArguments ["scan", cursor, count] =
        Command.scanOf cursor (some count) := by
      rw [Command.ofArguments]
    exact (answer_of_scanOf s hscan).1
  · rename_i arguments _ _ _ _ _ _ _ _ _ _
    have hunknown : Command.ofArguments arguments = .error .unknownCommand := by
      rw [Command.ofArguments] <;> assumption
    rw [Store.answer, hunknown]
    rfl

/-- **What is refused or only looks leaves the store as it is**, moves that are under way
included. -/
theorem answer_eq_self (s : Store σ) {arguments : List String}
    (h : (s.answer arguments).1.status = Response.refused ∨
      arguments.head? ∈ [some "scan", some "stats", some "dbsize"]) :
    (s.answer arguments).2 = s := by
  rw [Store.answer] at h ⊢
  rcases hc : Command.ofArguments arguments with e | c
  · rfl
  · rw [hc, Command.head?_of_ofArguments hc] at h
    rcases h with hrefused | hname
    · exact absurd hrefused (Command.status_run c s)
    · exact Command.run_eq_self s (by simpa using hname)

theorem Holds.meet (h : s.Holds m) (e : Event) : (s.meet e).Holds (m.meet e) := by
  cases e with
  | request arguments => exact h.answered arguments
  | upkeep rounds => exact Holds.upkeep (s := { s with rounds := rounds }) ⟨h.sound, h.spells⟩
  | allowResizing allowed => exact h.allowResizing allowed
  | collect => exact h.collect

/-- What happens to a store does not touch its source of words. -/
theorem source_meet (s : Store σ) (e : Event) : (s.meet e).source = s.source := by
  cases e with
  | request arguments =>
    change (s.answer arguments).2.source = s.source
    rw [Store.answer]
    split
    · rename_i c _
      cases c <;> rfl
    · rfl
  | upkeep | allowResizing | collect => rfl

/-- A store holds the map that the events make of the one it held before. -/
theorem Holds.after (h : s.Holds m) (events : List Event) :
    (s.after events).Holds (m.after events) ∧ (s.after events).source = s.source := by
  induction events generalizing s m with
  | nil => exact ⟨h, rfl⟩
  | cons e events ih =>
    obtain ⟨hafter, hsame⟩ := ih (h.meet e)
    exact ⟨hafter, hsame.trans (s.source_meet e)⟩

/-- **The service is a plain map.** Whatever requests a new store was sent, with the upkeep
run at any points in between, and whatever its source of words, the next request appends one
frame to what a buffer holds. The response in it is the one that the map gives. A random key is
none only if the map is empty or all tries of the draw missed; if the draws from the state at
hand come to a bucket with a chain in time, it is none exactly if the map is empty, and
otherwise a key of the map. What is refused or only looks leaves the whole store as it is. -/
theorem answers_of_empty (settings : Settings) (rounds : Nat) (g : WordSource σ) (words : σ)
    (events : List Event) (arguments : List String) (buffer : ByteArray)
    (notices : Array Notice) :
    let s := (empty settings rounds g words).after events
    let m := Contents.after ∅ events
    let moved := s.dictionary.migrateStep s.rules
    (Session.Answers.add ⟨buffer, notices, s⟩ arguments).bytes =
        buffer ++ (s.answer arguments).1.encode ∧
      m.Answers (s.dictionary.PickInVain g s.rules s.words) arguments (s.answer arguments).1 ∧
      ((m ≠ ∅ → ∃ t < patience, moved.FirstHit g s.words t) →
        ((s.answer ["randomkey"]).1 = ⟨Response.absent, .empty⟩ ↔ m = ∅) ∧
          (m ≠ ∅ → ∃ key ∈ m, (s.answer ["randomkey"]).1 = .ofText Response.okay key)) ∧
      ((s.answer arguments).1.status = Response.refused ∨
          arguments.head? ∈ [some "scan", some "stats", some "dbsize"] →
        (s.answer arguments).2 = s) := by
  intro s m moved
  obtain ⟨hholds, hsource⟩ : s.Holds m ∧ s.source = g :=
    Holds.after (holds_empty settings rounds g words) events
  have hanswer (arguments : List String) :
      m.Answers (s.dictionary.PickInVain g s.rules s.words) arguments (s.answer arguments).1 :=
    hsource ▸ (hholds.answer arguments).1
  exact ⟨rfl, hanswer arguments,
    fun hintime => (hanswer ["randomkey"]).randomKey fun hne => not_pickInVain.mpr (hintime hne),
    answer_eq_self s⟩

/-- Two keys, one of them removed again and an upkeep in between, leave the other to be
picked. -/
theorem answers_of_two_keys :
    let events : List Event := [.request ["set", "a", "1"], .request ["set", "b", "2"],
      .upkeep 0, .request ["del", "a"]]
    let s := (empty .standard 1 WordSource.splitMix 7).after events
    let m := Contents.after ∅ events
    m ≠ ∅ ∧
      (∃ t < patience, (s.dictionary.migrateStep s.rules).FirstHit .splitMix s.words t) ∧
      ∃ key ∈ m, (s.answer ["randomkey"]).1 = .ofText Response.okay key := by
  intro events s m
  have hlookup : m.lookup "b" = some "2" := rfl
  have hne : m ≠ ∅ := by
    intro hempty
    rw [hempty, Finmap.lookup_empty] at hlookup
    exact absurd hlookup (by simp)
  have hholds : s.Holds m := (Holds.after (holds_empty .standard 1 .splitMix 7) events).1
  have hintime := hholds.exists_firstHit_splitMix hne s.words
  obtain ⟨-, -, hrandom, -⟩ :=
    answers_of_empty .standard 1 WordSource.splitMix 7 events ["randomkey"] .empty #[]
  exact ⟨hne, hintime, (hrandom fun _ => hintime).2 hne⟩

end Store

end Service

end TwinTable
