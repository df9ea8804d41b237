/-
A plain finite map, and what it answers to the operations of a dictionary.

A `Ledger` has no buckets, no hashes and no handles: it is a list of keys, each with its
value, and every operation goes through the whole of it. `Ledger.Answers` says for each
operation which answers are right and what the map is afterwards. Where a dictionary may
choose, as when it picks an entry at random, the map allows every choice; where an answer
is about buckets and not about entries, it allows any and stays as it is.

A pick goes on drawing until it hits an entry, but not for ever. Whether its tries were in
vain depends on the buckets and on the words, of which a map knows nothing, so the map is told
(`Situation.InVain`). Only then may a pick return nothing from a map that is not empty.

The facts below are about such lists alone. They need that no two keys of a map are the
same, which makes the order of its entries immaterial.
-/
import TwinTable.Proofs.Dictionary.Filing
import TwinTable.Proofs.Dictionary.QuickDraws

set_option autoImplicit false

namespace TwinTable

/-- What a binding is to its users: its key and its value. -/
def Binding.pair {κ ν : Type} (b : Binding κ ν) : κ × Value ν := (b.key, b.value)

/-- A finite map from keys to values. -/
abbrev Ledger (κ ν : Type) := List (κ × Value ν)

namespace Ledger

variable {κ ν : Type} (K : Keying κ ν)

/-! ## The map -/

/-- The entry of a key. -/
def entryOf? (m : Ledger κ ν) (k : κ) : Option (κ × Value ν) :=
  m.find? fun e => K.same k e.1

/-- Binds a new key. -/
def enter (m : Ledger κ ν) (k : κ) (v : Value ν) : Ledger κ ν := (K.copyKey k, v) :: m

/-- Changes the value of a key. -/
def revise (m : Ledger κ ν) (k : κ) (f : Value ν → Value ν) : Ledger κ ν :=
  m.map fun e => if K.same k e.1 then (e.1, f e.2) else e

/-- Takes a key out. -/
def strike (m : Ledger κ ν) (k : κ) : Ledger κ ν := m.filter fun e => !K.same k e.1

/-- Revises the values of some keys of the map one after another, passing a state along.
Returned are the entries as they were left, and the map. -/
def reviseAlong {τ : Type} (f : τ → κ → Value ν → Value ν × τ) :
    τ → List κ → Ledger κ ν → List (κ × Value ν) × Ledger κ ν
  | _, [], m => ([], m)
  | s, k :: keys, m =>
    match m.entryOf? K k with
    | none => reviseAlong f s keys m
    | some e =>
      let (v, s) := f s e.1 e.2
      let (entries, m) := reviseAlong f s keys (m.revise K k fun _ => v)
      ((e.1, v) :: entries, m)

/-! ## Right answers -/

/-- The map may answer an operation like this, and is `m'` then. A draw that is in vain
returns nothing, and any other returns an entry if there is one. -/
def Answers (m : Ledger κ ν) (inVain : Prop) :
    Operation κ ν → Answer κ ν → (m' : Ledger κ ν) → Prop
  | .add k v, a, m' =>
    match m.entryOf? K k with
    | none => a = .outcome (.ok ()) ∧ m' = m.enter K k (.object (K.copyValue v))
    | some _ => a = .outcome (.error .keyExists) ∧ m' = m
  | .claim k set, a, m' =>
    match m.entryOf? K k with
    | none => (∃ b, a = .claimed true (some b) ∧ b.pair = (K.copyKey k, .unsigned 0)) ∧
        m' = m.enter K k (set true (.unsigned 0))
    | some e => (∃ b, a = .claimed false (some b) ∧ b.pair = e) ∧ m' = m.revise K k (set false)
  | .replace k v, a, m' =>
    match m.entryOf? K k with
    | none => a = .told true ∧ m' = m.enter K k (.object (K.copyValue v))
    | some _ => a = .told false ∧ m' = m.revise K k fun _ => .object (K.copyValue v)
  | .find k set, a, m' =>
    (∃ b, a = .entry b ∧ b.map Binding.pair = m.entryOf? K k) ∧ m' = m.revise K k set
  | .unlink k, a, m' =>
    (∃ b, a = .entry b ∧ b.map Binding.pair = m.entryOf? K k) ∧ m' = m.strike K k
  | .delete k, a, m' =>
    match m.entryOf? K k with
    | none => a = .outcome (.error .keyNotFound) ∧ m' = m
    | some _ => a = .outcome (.ok ()) ∧ m' = m.strike K k
  | .clear, a, m' => (∃ turns, a = .counted turns) ∧ m' = []
  | .pick, a, m' | .pickFairly, a, m' =>
    (∃ b, a = .entry b ∧ (b = none ↔ m = [] ∨ inVain) ∧ ∀ x ∈ b, x.pair ∈ m) ∧ m' = m
  | .sample _, a, m' => (∃ bs, a = .entries bs ∧ ∀ x ∈ bs, x.pair ∈ m) ∧ m' = m
  | .scan _, a, m' => (∃ bs next, a = .scanned bs next ∧ ∀ x ∈ bs, x.pair ∈ m) ∧ m' = m
  | .scanRevising f start _, a, m' =>
    ∃ bs next, a = .scanned bs next ∧ (∀ x ∈ bs, ∃ e ∈ m, e.1 = x.key) ∧
      m.reviseAlong K f start (bs.map (·.key)) = (bs.map Binding.pair, m')
  | .advance _, a, m' => (∃ b w, a = .advanced b w ∧ ∀ x ∈ b, x.pair ∈ m) ∧ m' = m
  | .discard _, _, m' | .expand _, _, m' | .resizeTo _, _, m' | .shrinkToFit, _, m'
  | .migrate _, _, m' | .migrateFor _, _, m' | .allowResizing _, _, m' | .walk, _, m'
  | .safeWalk, _, m' | .endWalk _, _, m' => m' = m

/-- No two keys of the map are the same. -/
def Distinct (m : Ledger κ ν) : Prop := m.Pairwise fun a b => K.same a.1 b.1 = false

/-- The map explains the answers to a row of operations, the first of which finds things as
they are `before` it: each answer is right, the map stays one, and it has as many entries as the
dictionary says it has. -/
def Explains {σ : Type} (g : WordSource σ) : (before : Situation κ ν σ) → Ledger κ ν →
    List (Operation κ ν) → List (Answer κ ν × Situation κ ν σ) → Prop
  | _, _, [], [] => True
  | before, m, op :: ops, (a, s) :: replies =>
    ∃ m', m.Answers K (before.InVain K g op) op a m' ∧ m'.Distinct K ∧
      s.dictionary.size = m'.length ∧ Explains g s m' ops replies
  | _, _, _, _ => False

/-! ## Maps whose keys are apart -/

variable {K} {m m' : Ledger κ ν}

theorem entryOf?_eq_none {k : κ} : m.entryOf? K k = none ↔ ∀ e ∈ m, K.same k e.1 = false := by
  rw [entryOf?, List.find?_eq_none]
  refine forall₂_congr fun e _ => ?_
  rw [Bool.not_eq_true]

/-- An entry with the key is the entry of the key. -/
theorem Distinct.entryOf?_eq_some (hK : K.Lawful) (hm : Distinct K m) {k : κ}
    {e : κ × Value ν} (he : e ∈ m) (hk : K.same k e.1 = true) : m.entryOf? K k = some e := by
  rcases hfound : m.entryOf? K k with _ | x
  · rw [entryOf?_eq_none.mp hfound e he] at hk
    exact absurd hk (by simp)
  · rw [entryOf?] at hfound
    have hx := List.mem_of_find?_eq_some hfound
    have hkx : K.same k x.1 = true :=
      List.find?_some (p := fun e : κ × Value ν => K.same k e.1) hfound
    rw [hK.eq_of_same Prod.fst hm hx he hkx hk]

/-- Nothing is revised or struck where the key is not there. -/
theorem revise_of_entryOf?_eq_none {k : κ} (h : m.entryOf? K k = none)
    (f : Value ν → Value ν) : m.revise K k f = m := by
  rw [revise, List.map_congr_left (g := id), List.map_id]
  intro e he
  rw [entryOf?_eq_none.mp h e he]
  rfl

theorem strike_of_entryOf?_eq_none {k : κ} (h : m.entryOf? K k = none) : m.strike K k = m := by
  rw [strike, List.filter_eq_self]
  intro e he
  rw [entryOf?_eq_none.mp h e he]
  rfl

/-- The key of an entry is not there a second time. -/
theorem Distinct.entryOf?_tail (hK : K.Lawful) {k : κ} {e : κ × Value ν}
    (hm : Distinct K (e :: m)) (hk : K.same k e.1 = true) : m.entryOf? K k = none := by
  refine entryOf?_eq_none.mpr ?_
  intro x hx
  rw [hK.same_congr hk]
  exact (List.pairwise_cons.mp hm).1 x hx

/-- Striking or revising a key leaves the entries that are apart from it. -/
theorem Distinct.strike_cons (hK : K.Lawful) {k : κ} {e : κ × Value ν}
    (hm : Distinct K (e :: m)) (hk : K.same k e.1 = true) :
    strike K (e :: m) k = m := by
  rw [strike, List.filter_cons_of_neg (by simp [hk])]
  exact strike_of_entryOf?_eq_none (hm.entryOf?_tail hK hk)

theorem Distinct.revise_cons (hK : K.Lawful) {k : κ} {e : κ × Value ν}
    (hm : Distinct K (e :: m)) (hk : K.same k e.1 = true) (f : Value ν → Value ν) :
    Ledger.revise K (e :: m) k f = (e.1, f e.2) :: m := by
  rw [Ledger.revise, List.map_cons, if_pos hk]
  exact congrArg _ (revise_of_entryOf?_eq_none (hm.entryOf?_tail hK hk) f)

theorem reviseAlong_cons {τ : Type} (f : τ → κ → Value ν → Value ν × τ) {s : τ} {k : κ}
    {e : κ × Value ν} (h : m.entryOf? K k = some e) (keys : List κ) :
    m.reviseAlong K f s (k :: keys) =
      let rest := (m.revise K k fun _ => (f s e.1 e.2).1).reviseAlong K f (f s e.1 e.2).2 keys
      ((e.1, (f s e.1 e.2).1) :: rest.1, rest.2) := by
  rw [reviseAlong, h]

/-! The order of the entries does not matter. -/

theorem Distinct.of_perm (hK : K.Lawful) (h : List.Perm m m') (hm : Distinct K m) :
    Distinct K m' :=
  (h.pairwise_iff hK.same_eq_false_symm).mp hm

theorem perm_revise (h : List.Perm m m') (k : κ) (f : Value ν → Value ν) :
    List.Perm (m.revise K k f) (m'.revise K k f) := h.map _

theorem perm_strike (h : List.Perm m m') (k : κ) : List.Perm (m.strike K k) (m'.strike K k) :=
  h.filter _

/-- What is written to a value does not matter to the keys. -/
theorem Distinct.revise (hm : Distinct K m) (k : κ) (f : Value ν → Value ν) :
    Distinct K (m.revise K k f) := by
  have hkey : ∀ e : κ × Value ν, (if K.same k e.1 then (e.1, f e.2) else e).1 = e.1 := by
    intro e
    split <;> rfl
  rw [Distinct, Ledger.revise, List.pairwise_map]
  refine hm.imp ?_
  intro a b h
  rw [hkey, hkey]
  exact h

/-- A fresh entry can be revised before it is entered. -/
theorem revise_enter (hK : K.Lawful) {k : κ} (h : m.entryOf? K k = none) (v : Value ν)
    (f : Value ν → Value ν) : (m.enter K k v).revise K k f = m.enter K k (f v) := by
  rw [enter, enter, Ledger.revise, List.map_cons, if_pos (hK.same_copyKey k)]
  exact congrArg _ (revise_of_entryOf?_eq_none h f)

end Ledger

end TwinTable
