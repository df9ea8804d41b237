/-
What a walk has before it.

A walk holds a bucket number and at most one handle, but together with the dictionary as it
is just now they stand for a list: the entries that the walk would return from here on if
nothing changed (`Walk.toCome`). It begins in the bucket entered last, at the entry to
return next, or at its head if that entry is gone; then come the buckets further on in the
same array, and behind those of the main array all of the target.

To ask for the next entry is to take the head off this list (`Walk.next_eq`). The proof
needs that the handle means what it meant: if there is an entry with it, it is in the bucket
entered last (`Walk.Placed`). That handles occur once makes this true when it is noted down.
-/
import TwinTable.Proofs.Dictionary.Handles
import TwinTable.Proofs.Dictionary.Members

set_option autoImplicit false

namespace TwinTable

variable {κ ν : Type}

/-! ## Buckets from one on -/

namespace Buckets

variable {t : Buckets κ ν} {i : Nat} {b : Binding κ ν}

/-- The bindings in a bucket and those behind it. -/
def listFrom (t : Buckets κ ν) (i : Nat) : List (Binding κ ν) :=
  (List.range' i (t.size - i)).flatMap t.chain

theorem listFrom_zero (t : Buckets κ ν) : t.listFrom 0 = t.toList := by
  rw [listFrom, toList_eq_flatMap, List.range_eq_range', Nat.sub_zero]

theorem listFrom_of_size_le (h : t.size ≤ i) : t.listFrom i = [] := by
  rw [listFrom, Nat.sub_eq_zero_of_le h]
  rfl

theorem listFrom_eq (t : Buckets κ ν) (i : Nat) :
    t.listFrom i = t.chain i ++ t.listFrom (i + 1) := by
  by_cases hi : i < t.size
  · rw [listFrom, listFrom, show t.size - i = t.size - (i + 1) + 1 by omega, List.range'_succ,
      List.flatMap_cons]
  · rw [listFrom_of_size_le (by omega), listFrom_of_size_le (by omega), chain_eq_nil (by omega)]
    rfl

theorem mem_listFrom : b ∈ t.listFrom i ↔ ∃ j, i ≤ j ∧ b ∈ t.chain j := by
  rw [listFrom, List.mem_flatMap]
  constructor
  · rintro ⟨j, hj, hb⟩
    exact ⟨j, (List.mem_range'_1.mp hj).1, hb⟩
  · rintro ⟨j, hij, hb⟩
    have hj := lt_size_of_mem hb
    exact ⟨j, List.mem_range'_1.mpr ⟨hij, by omega⟩, hb⟩

/-- The buckets in front of one, which with those from there on are all. -/
theorem exists_append_listFrom (t : Buckets κ ν) :
    ∀ i, ∃ front, t.toList = front ++ t.listFrom i := by
  intro i
  induction i with
  | zero => exact ⟨[], t.listFrom_zero.symm⟩
  | succ i ih =>
    obtain ⟨front, hfront⟩ := ih
    refine ⟨front ++ t.chain i, ?_⟩
    rw [hfront, listFrom_eq, List.append_assoc]

/-- **Looking for a chain** ends at the first entry from the bucket on, or where there is
none. -/
theorem nextChain?_spec (t : Buckets κ ν) : ∀ count start, count = t.size - start →
    (t.nextChain? count start = none ∧ t.listFrom start = []) ∨
      ∃ i b rest, t.nextChain? count start = some (i, b, rest) ∧ t.chain i = b :: rest ∧
        t.listFrom start = b :: (rest ++ t.listFrom (i + 1)) := by
  intro count
  -- induction on the buckets that are left; the start goes up with each
  induction count with
  | zero =>
    intro start hcount
    exact .inl ⟨rfl, listFrom_of_size_le (by omega)⟩
  | succ count ih =>
    intro start hcount
    rw [nextChain?, listFrom_eq]
    rcases hc : t.chain start with _ | ⟨b, rest⟩
    · exact ih (start + 1) (by omega)
    · exact .inr ⟨start, b, rest, rfl, hc, rfl⟩

end Buckets

/-! ## Chains from a handle on -/

namespace Dictionary

variable {d : Dictionary κ ν}

theorem suffix?_eq_none {u : Nat} : ∀ {chain : List (Binding κ ν)},
    suffix? u chain = none ↔ u ∉ chain.map (·.id) := by
  intro chain
  induction chain with
  | nil => simp [suffix?]
  | cons x chain ih =>
    rw [suffix?, List.map_cons, List.mem_cons, not_or]
    by_cases hx : x.id = u
    · simp [hx]
    · rw [if_neg hx, ih]
      exact ⟨fun h => ⟨fun he => hx he.symm, h⟩, fun h => h.2⟩

/-- What is found is the handle, and the rest is what follows it. -/
theorem suffix?_eq_some {u : Nat} : ∀ {chain rest : List (Binding κ ν)} {b : Binding κ ν},
    suffix? u chain = some (b, rest) →
      b.id = u ∧ chain.dropWhile (·.id ≠ u) = b :: rest ∧
        ∃ before, chain = before ++ b :: rest := by
  intro chain
  induction chain with
  | nil => intro rest b h; exact absurd h (by simp [suffix?])
  | cons x chain ih =>
    intro rest b h
    rw [suffix?] at h
    by_cases hx : x.id = u
    · rw [if_pos hx] at h
      obtain ⟨rfl, rfl⟩ : x = b ∧ chain = rest := by simpa using h
      exact ⟨hx, List.dropWhile_cons_of_neg (by simp [hx]), [], rfl⟩
    · rw [if_neg hx] at h
      obtain ⟨hid, hdrop, before, hbefore⟩ := ih h
      refine ⟨hid, ?_, x :: before, by rw [hbefore]; rfl⟩
      rw [List.dropWhile_cons_of_pos (by simp [hx])]
      exact hdrop

end Dictionary

/-! ## The list before a walk -/

namespace Walk

open Dictionary

variable {d : Dictionary κ ν} {w : Walk}

/-- What is left of the bucket entered last: the entry to return next with what follows it,
or the whole chain if that entry is gone. -/
def current (w : Walk) (d : Dictionary κ ν) : List (Binding κ ν) :=
  match w.upcoming with
  | none => []
  | some u =>
    let chain := (d.side w.side).chain (w.index - 1)
    if u ∈ chain.map (·.id) then chain.dropWhile (·.id ≠ u) else chain

/-- What comes after the array of a side. -/
def past (d : Dictionary κ ν) : Side → List (Binding κ ν)
  | .main => d.target.toList
  | .target => []

/-- The entries that a walk has before it. -/
def toCome (w : Walk) (d : Dictionary κ ν) : List (Binding κ ν) :=
  w.current d ++ ((d.side w.side).listFrom w.index ++ past d w.side)

/-- If there is an entry with the handle that a walk remembers, it is in the bucket entered
last. -/
def Placed (w : Walk) (d : Dictionary κ ν) : Prop :=
  ∀ u, w.upcoming = some u → u < d.nextId ∧ 1 ≤ w.index ∧
    ∀ s i, ∀ b ∈ (d.side s).chain i, b.id = u → s = w.side ∧ i = w.index - 1

theorem placed_of_upcoming_eq_none (h : w.upcoming = none) : w.Placed d := by
  intro u hu
  rw [h] at hu
  exact absurd hu (by simp)

theorem toCome_of_upcoming_eq_none (h : w.upcoming = none) :
    w.toCome d = (d.side w.side).listFrom w.index ++ past d w.side := by
  rw [toCome, current, h]
  rfl

/-- A walk that begins has all entries before it. -/
theorem toCome_of_start {w : Walk} (hside : w.side = .main) (hindex : w.index = 0)
    (hup : w.upcoming = none) (d : Dictionary κ ν) : w.toCome d = d.toList := by
  rw [toCome_of_upcoming_eq_none hup, hside, hindex]
  exact congrArg (· ++ d.target.toList) d.main.listFrom_zero

/-- No entry stands before a walk twice. -/
theorem toCome_sublist (w : Walk) (d : Dictionary κ ν) (h : w.upcoming ≠ none → 1 ≤ w.index) :
    (w.toCome d).Sublist d.toList := by
  have hside : ((d.side w.side).toList ++ past d w.side).Sublist d.toList := by
    rw [Dictionary.toList]
    rcases w.side with _ | _
    · exact .refl _
    · exact (List.append_nil d.target.toList).symm ▸ List.sublist_append_right _ _
  refine List.Sublist.trans ?_ hside
  rw [toCome, ← List.append_assoc]
  refine List.Sublist.append_right ?_ _
  -- with what is left of the bucket entered last, it is a part of the list from there on
  rcases hup : w.upcoming with _ | u
  · obtain ⟨front, hfront⟩ := (d.side w.side).exists_append_listFrom w.index
    rw [current, hup, hfront]
    exact List.sublist_append_right _ _
  · obtain ⟨front, hfront⟩ := (d.side w.side).exists_append_listFrom (w.index - 1)
    have hback : w.index - 1 + 1 = w.index := Nat.sub_add_cancel (h (by simp [hup]))
    rw [hfront, (d.side w.side).listFrom_eq (w.index - 1), hback]
    refine (List.Sublist.append_right ?_ _).trans (List.sublist_append_right _ _)
    rw [current, hup]
    dsimp only
    split
    · exact List.dropWhile_sublist _
    · exact .refl _

/-! ## The next entry -/

/-- After an entry was returned, what is left of its bucket is what follows it. -/
theorem current_after (hd : d.Shape) (w : Walk) {s : Side} {index : Nat} {b : Binding κ ν}
    {before rest : List (Binding κ ν)}
    (hc : (d.side s).chain (index - 1) = before ++ b :: rest) :
    (w.after s index rest).current d = rest := by
  rcases rest with _ | ⟨x, rest⟩
  · rfl
  · have hnodup := Buckets.nodup_chain (hd.nodup_side s) (index - 1)
    rw [hc] at hnodup
    have hmem : x.id ∈ (before ++ b :: x :: rest).map (·.id) := by simp
    -- no other entry has the handle of the one that follows, so up to it all are dropped
    have hother : ∀ a ∈ before ++ [b], decide (a.id ≠ x.id) = true := by
      intro a ha
      refine decide_eq_true fun he => ?_
      rw [show before ++ b :: x :: rest = (before ++ [b]) ++ x :: rest by simp, List.map_append]
        at hnodup
      exact (List.nodup_append.mp hnodup).2.2 _ (List.mem_map_of_mem ha) x.id (by simp) he
    change (if x.id ∈ ((d.side s).chain (index - 1)).map (·.id) then
      ((d.side s).chain (index - 1)).dropWhile (·.id ≠ x.id)
      else (d.side s).chain (index - 1)) = x :: rest
    rw [hc, if_pos hmem, show before ++ b :: x :: rest = (before ++ [b]) ++ x :: rest by simp,
      List.dropWhile_append_of_pos hother, List.dropWhile_cons_of_neg (by simp)]

theorem placed_after (hd : d.Shape) (w : Walk) {s : Side} {index : Nat} {b : Binding κ ν}
    {before rest : List (Binding κ ν)} (hindex : 1 ≤ index)
    (hc : (d.side s).chain (index - 1) = before ++ b :: rest) :
    (w.after s index rest).Placed d := by
  intro u hu
  rcases rest with _ | ⟨x, rest⟩
  · exact absurd hu (by simp [after])
  · obtain rfl : x.id = u := by simpa [after] using hu
    have hx : x ∈ (d.side s).chain (index - 1) := by simp [hc]
    refine ⟨hd.issued x (mem_toList_of_mem_chain hx), hindex, ?_⟩
    intro s' i b' hb' hid
    exact hd.place_unique hb' hx hid

/-- What a step of a walk is: it returns the first of the entries before it, and has the
others before it then. -/
def Steps (d : Dictionary κ ν) (coming : List (Binding κ ν))
    (result : Option (Binding κ ν) × Walk) : Prop :=
  result.1 = coming.head? ∧ result.2.toCome d = coming.tail ∧ result.2.Placed d

/-- Entering the next bucket of an array, or coming to its end. -/
theorem steps_enterIn (hd : d.Shape) (w : Walk) (s : Side) (index : Nat) :
    (∃ w', w.enterIn d s index = (none, w') ∧ (d.side s).listFrom index = [] ∧
        w'.side = s ∧ w'.upcoming = none ∧ w'.toCome d = past d s) ∨
      ∃ b, (w.enterIn d s index).1 = some b ∧
        Steps d ((d.side s).listFrom index ++ past d s) (w.enterIn d s index) := by
  rw [enterIn]
  rcases (d.side s).nextChain?_spec _ index rfl with ⟨hnone, hnil⟩ | ⟨i, b, rest, hsome, hc, hlist⟩
  · rw [hnone]
    refine .inl ⟨_, rfl, hnil, rfl, rfl, ?_⟩
    rw [toCome_of_upcoming_eq_none rfl]
    exact congrArg (· ++ past d s) (Buckets.listFrom_of_size_le (Nat.le_max_right _ _))
  · rw [hsome]
    have hchain : (d.side s).chain (i + 1 - 1) = [] ++ b :: rest := hc
    refine .inr ⟨b, rfl, ?_, ?_, placed_after hd w (Nat.le_add_left 1 i) hchain⟩
    · rw [hlist]
      rfl
    · rw [hlist, toCome, current_after hd w hchain]
      exact (List.append_assoc _ _ _).symm

/-- Entering the next bucket, of the target too if it comes to that. -/
theorem steps_enter (hd : d.Shape) (w : Walk) :
    Steps d ((d.side w.side).listFrom w.index ++ past d w.side) (w.enter d) := by
  rw [enter]
  rcases steps_enterIn hd w w.side w.index with ⟨w', he, hnil, hside, hup, hcome⟩ | ⟨b, hb, hsteps⟩
  · rw [he, hnil, List.nil_append]
    dsimp only
    by_cases hmain : (w'.side = .main && d.migrating) = true
    · -- the main array has come to its end, and the target is next
      rw [if_pos hmain]
      rw [Bool.and_eq_true, decide_eq_true_eq] at hmain
      have hmainside : w.side = .main := hside.symm.trans hmain.1
      have htarget : past d w.side = (d.side .target).listFrom 0 ++ past d .target := by
        rw [hmainside, Buckets.listFrom_zero]
        exact (List.append_nil _).symm
      rw [htarget]
      rcases steps_enterIn hd w' .target 0 with ⟨w'', he', hnil', -, hup', hcome'⟩ | ⟨b, -, hsteps⟩
      · rw [he', hnil']
        exact ⟨rfl, hcome', placed_of_upcoming_eq_none hup'⟩
      · exact hsteps
    · -- there is no target, or the walk is in it
      rw [if_neg hmain]
      have hpast : past d w.side = [] := by
        rw [← hside]
        rcases hs : w'.side with _ | _
        · have hsettled : d.migrating = false := by simpa [hs] using hmain
          change d.target.toList = []
          rw [hd.settled (by simpa [migrating] using hsettled), Buckets.toList_unallocated]
        · rfl
      refine ⟨?_, ?_, placed_of_upcoming_eq_none hup⟩
      · rw [hpast]
        rfl
      · rw [hcome, hpast]
        rfl
  · rcases henter : w.enterIn d w.side w.index with ⟨_ | b', w'⟩
    · rw [henter] at hb
      exact absurd hb (by simp)
    · rw [henter] at hsteps
      exact hsteps

/-- An entry that is gone is not found anywhere. -/
theorem resume?_eq_none {u : Nat} {s : Side} {i : Nat}
    (hplace : ∀ s' i', ∀ b ∈ (d.side s').chain i', b.id = u → s' = s ∧ i' = i)
    (hgone : u ∉ ((d.side s).chain i).map (·.id)) : d.resume? s i u = none := by
  have hnowhere : ∀ s', (d.side s').chains.findSome? (suffix? u) = none := by
    intro s'
    by_contra hsome
    obtain ⟨⟨b, rest⟩, hfound⟩ := Option.ne_none_iff_exists'.mp hsome
    obtain ⟨chain, hchain, hb⟩ := Array.exists_of_findSome?_eq_some hfound
    obtain ⟨i', hi'⟩ := Buckets.mem_toList.mp (mem_of_findSome?_suffix? hfound)
    obtain ⟨rfl, rfl⟩ := hplace s' i' b hi' (suffix?_eq_some hb).1
    exact hgone (List.mem_map.mpr ⟨b, hi', (suffix?_eq_some hb).1⟩)
  have hmain : d.main.chains.findSome? (suffix? u) = none := hnowhere .main
  have htarget : d.target.chains.findSome? (suffix? u) = none := hnowhere .target
  rw [resume?, suffix?_eq_none.mpr hgone]
  dsimp only
  rw [hmain]
  exact htarget

/-- **To ask for the next entry is to take the head off what is to come.** -/
theorem next_eq (hd : d.Shape) (hw : w.Placed d) : Steps d (w.toCome d) (w.next d) := by
  rw [next]
  rcases hup : w.upcoming with _ | u
  · rw [toCome_of_upcoming_eq_none hup]
    exact steps_enter hd w
  · obtain ⟨-, hindex, hplace⟩ := hw u hup
    have hback : w.index - 1 + 1 = w.index := Nat.sub_add_cancel hindex
    dsimp only
    by_cases hthere : u ∈ ((d.side w.side).chain (w.index - 1)).map (·.id)
    · -- the entry is where it was, and what follows it is left
      obtain ⟨⟨b, rest⟩, hfound⟩ :=
        Option.ne_none_iff_exists'.mp fun hnone => suffix?_eq_none.mp hnone hthere
      obtain ⟨-, hdrop, before, hc⟩ := suffix?_eq_some hfound
      have hcurrent : w.current d = b :: rest := by
        rw [current, hup]
        dsimp only
        rw [if_pos hthere, hdrop]
      rw [resume?, hfound]
      refine ⟨?_, ?_, placed_after hd w hindex hc⟩
      · rw [toCome, hcurrent]
        rfl
      · rw [toCome, toCome, hcurrent, current_after hd w hc]
        rfl
    · -- it is gone, and the bucket is entered once more
      have hcome : w.toCome d = (d.side w.side).listFrom (w.index - 1) ++ past d w.side := by
        rw [toCome, current, hup]
        dsimp only
        rw [if_neg hthere, (d.side w.side).listFrom_eq (w.index - 1), hback, List.append_assoc]
      rw [resume?_eq_none hplace hthere, hcome]
      exact steps_enter hd { w with upcoming := none, index := w.index - 1 }

end Walk

end TwinTable
