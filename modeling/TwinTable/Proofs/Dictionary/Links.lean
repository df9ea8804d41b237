/-
What following links comes to.

`Slab.Leads slab current bs` says that the links lead from `current` through the bindings
`bs`, in order, and then nowhere. It is the whole of what a proof about links needs, for
two reasons. A loop that follows links is an induction on `bs`; and a change to an entry
whose handle is not in `bs` leaves it true (`Leads.congr`), so that what happens to one
chain is of no concern to the others as long as no two bindings share a handle.

`Heads.Holds` says it for all the chains of one array at once. Each loop of the operations
has one lemma below: that it comes to an end without failing, and which chains the array
holds then.
-/
import TwinTable.Proofs.Dictionary.Linked

set_option autoImplicit false

namespace TwinTable

/-! ## From handle to handle -/

namespace Slab

variable {κ ν : Type} {slab slab' : Slab κ ν}

/-- The links lead from a handle through just these bindings. -/
def Leads (slab : Slab κ ν) : (current : Option Nat) → List (Binding κ ν) → Prop
  | current, [] => current = none
  | current, b :: bs => current = some b.id ∧
      ∃ next, slab b.id = some ⟨b.key, b.value, next⟩ ∧ Leads slab next bs

/-- Links that lead through a chain begin at its first entry. -/
theorem Leads.current_eq {current : Option Nat} {bs : List (Binding κ ν)}
    (h : Leads slab current bs) : current = bs.head?.map (·.id) := by
  cases bs with
  | nil => exact h
  | cons b bs => exact h.1

/-- **The frame.** Where the entries of a chain stay as they are, it leads on as before. -/
theorem Leads.congr {bs : List (Binding κ ν)} : ∀ {current : Option Nat},
    Leads slab current bs → (∀ b ∈ bs, slab' b.id = slab b.id) → Leads slab' current bs := by
  -- induction on the chain; the handle it begins at is whatever the entry before says
  induction bs with
  | nil => intro current h _; exact h
  | cons b bs ih =>
    rintro current ⟨hcurrent, next, hcell, hrest⟩ hsame
    refine ⟨hcurrent, next, ?_, ih hrest fun x hx => hsame x (List.mem_cons_of_mem _ hx)⟩
    rw [hsame b List.mem_cons_self]
    exact hcell

theorem Leads.update {current : Option Nat} {bs : List (Binding κ ν)}
    (h : Leads slab current bs) {id : Nat} (hid : id ∉ bs.map (·.id)) (c : Option (Cell κ ν)) :
    Leads (Function.update slab id c) current bs := by
  apply h.congr
  intro b hb
  rw [Function.update_of_ne]
  rintro rfl
  exact hid (List.mem_map_of_mem hb)

/-- A chain is empty if it begins nowhere, and only then. -/
theorem Leads.eq_none_iff {current : Option Nat} {bs : List (Binding κ ν)}
    (h : Leads slab current bs) : current = none ↔ bs = [] := by
  cases bs with
  | nil => exact ⟨fun _ => rfl, fun _ => h⟩
  | cons b bs => simp [h.1]

theorem Leads.exists_cell {current : Option Nat} {bs : List (Binding κ ν)}
    (h : Leads slab current bs) {b : Binding κ ν} (hb : b ∈ bs) :
    ∃ next, slab b.id = some ⟨b.key, b.value, next⟩ := by
  induction bs generalizing current with
  | nil => exact absurd hb List.not_mem_nil
  | cons x bs ih =>
    obtain ⟨-, next, hcell, hrest⟩ := h
    rcases List.mem_cons.mp hb with rfl | hb
    · exact ⟨next, hcell⟩
    · exact ih hrest hb

/-! ### Loops that only read or write values

Each loop is an induction on the chain ahead. The fuel is at least as long as that chain, so
there is some left at every entry, and one less is enough for what follows it. -/

theorem exists_fuel {α : Type} {x : α} {xs : List α} {fuel : Nat}
    (h : (x :: xs).length ≤ fuel) : ∃ n, fuel = n + 1 ∧ xs.length ≤ n := by
  rw [List.length_cons] at h
  exact ⟨fuel - 1, by omega, by omega⟩

/-- A search along the links is a search through the chain. -/
theorem Leads.search (test : κ → Bool) {bs : List (Binding κ ν)} :
    ∀ {fuel : Nat} {current : Option Nat}, Leads slab current bs → bs.length ≤ fuel →
      search slab test fuel current =
        some ((bs.find? fun b => test b.key).map (·.id)) := by
  -- induction on the chain, with as much fuel left as there are entries
  induction bs with
  | nil =>
    rintro fuel current rfl -
    unfold Slab.search
    rfl
  | cons b bs ih =>
    rintro fuel current ⟨rfl, next, hcell, hrest⟩ hfuel
    obtain ⟨fuel, rfl, hfuel'⟩ := exists_fuel hfuel
    rw [Slab.search, hcell]
    by_cases htest : test b.key = true
    · rw [List.find?_cons_of_pos (p := fun b : Binding κ ν => test b.key) htest]
      simp [htest]
    · rw [List.find?_cons_of_neg (p := fun b : Binding κ ν => test b.key) htest]
      simp only [htest]
      exact ih hrest hfuel'

/-- What is collected along the links is the chain. -/
theorem Leads.gather {bs : List (Binding κ ν)} : ∀ {fuel : Nat} {current : Option Nat},
    Leads slab current bs → bs.length ≤ fuel → gather slab fuel current = some bs := by
  induction bs with
  | nil =>
    rintro fuel current rfl -
    unfold Slab.gather
    rfl
  | cons b bs ih =>
    rintro fuel current ⟨rfl, next, hcell, hrest⟩ hfuel
    obtain ⟨fuel, rfl, hfuel'⟩ := exists_fuel hfuel
    rw [Slab.gather, hcell]
    dsimp only
    rw [ih hrest hfuel']
    rfl

/-- Revising the value under one handle revises it in the chain that has the handle. -/
theorem Leads.write {id : Nat} {cell : Cell κ ν} (hid : slab id = some cell)
    (f : Value ν → Value ν) {bs : List (Binding κ ν)} : ∀ {current : Option Nat},
      Leads slab current bs →
      Leads (Function.update slab id (some { cell with value := f cell.value })) current
        (bs.map fun b => if b.id = id then { b with value := f b.value } else b) := by
  -- induction on the chain; each entry either has the handle or stays as it is
  induction bs with
  | nil => intro current h; exact h
  | cons b bs ih =>
    rintro current ⟨rfl, next, hcell, hrest⟩
    rw [List.map_cons]
    by_cases hb : b.id = id
    · subst hb
      obtain rfl : ⟨b.key, b.value, next⟩ = cell := Option.some.inj (hcell.symm.trans hid)
      rw [if_pos rfl]
      exact ⟨rfl, next, Function.update_self .., ih hrest⟩
    · rw [if_neg hb]
      exact ⟨rfl, next, (Function.update_of_ne hb ..).trans hcell, ih hrest⟩

/-- Two slabs in which the same handles are alive, and which differ under some handles at
most. -/
structure SameOff (ids : List Nat) (slab slab' : Slab κ ν) : Prop where
  alive : ∀ id, slab' id = none ↔ slab id = none
  off : ∀ id, id ∉ ids → slab' id = slab id

theorem SameOff.refl (ids : List Nat) (slab : Slab κ ν) : SameOff ids slab slab :=
  ⟨fun _ => Iff.rfl, fun _ _ => rfl⟩

theorem SameOff.trans {ids : List Nat} {slab'' : Slab κ ν} (h : SameOff ids slab slab')
    (h' : SameOff ids slab' slab'') : SameOff ids slab slab'' :=
  ⟨fun id => (h'.alive id).trans (h.alive id),
    fun id hid => (h'.off id hid).trans (h.off id hid)⟩

theorem SameOff.mono {ids ids' : List Nat} (h : SameOff ids slab slab') (hsub : ids ⊆ ids') :
    SameOff ids' slab slab' :=
  ⟨h.alive, fun id hid => h.off id fun hmem => hid (hsub hmem)⟩

/-- Changing what lives under a handle that is alive. -/
theorem sameOff_update {id : Nat} (hid : slab id ≠ none) (cell : Cell κ ν) :
    SameOff [id] slab (Function.update slab id (some cell)) := by
  refine ⟨?_, ?_⟩
  · intro x
    by_cases hx : x = id
    · subst hx
      simp [hid]
    · rw [Function.update_of_ne hx]
  · intro x hx
    rw [Function.update_of_ne]
    simpa using hx

theorem Leads.sameOff {ids : List Nat} {current : Option Nat} {bs : List (Binding κ ν)}
    (h : Leads slab current bs) (hs : SameOff ids slab slab') (hids : ∀ b ∈ bs, b.id ∉ ids) :
    Leads slab' current bs :=
  h.congr fun b hb => hs.off b.id (hids b hb)

/-- Revising along the links revises the chain, and nothing else. -/
theorem Leads.reviseFrom {τ : Type} (f : τ → κ → Value ν → Value ν × τ)
    {bs : List (Binding κ ν)} : ∀ {fuel : Nat} {current : Option Nat} {s : τ} {slab : Slab κ ν},
      Leads slab current bs → bs.length ≤ fuel → (bs.map (·.id)).Nodup →
      ∃ slab', Slab.reviseFrom f fuel current s slab =
          some ((Dictionary.reviseChain f s bs).2, slab') ∧
        Leads slab' current (Dictionary.reviseChain f s bs).1 ∧
        SameOff (bs.map (·.id)) slab slab' := by
  induction bs with
  | nil =>
    rintro fuel current s slab rfl - -
    exact ⟨slab, by unfold Slab.reviseFrom; rfl, rfl, .refl _ _⟩
  | cons b bs ih =>
    rintro fuel current s slab ⟨rfl, next, hcell, hrest⟩ hfuel hnodup
    rw [List.map_cons, List.nodup_cons] at hnodup
    obtain ⟨fuel, rfl, hfuel'⟩ := exists_fuel hfuel
    -- the rest is led through as before, since the entry that was revised is not in it
    have hrest' := hrest.update hnodup.1 (some ⟨b.key, (f s b.key b.value).1, next⟩)
    obtain ⟨slab', hrun, hleads, hsame⟩ :=
      ih (s := (f s b.key b.value).2) hrest' hfuel' hnodup.2
    refine ⟨slab', ?_, ⟨rfl, next, ?_, hleads⟩, ?_⟩
    · unfold Slab.reviseFrom
      simp only [hcell]
      exact hrun
    · -- the rest of the chain does not come back to this entry
      show slab' b.id = some ⟨b.key, (f s b.key b.value).1, next⟩
      rw [hsame.off b.id hnodup.1, Function.update_self]
    · have halive : slab b.id ≠ none := by simp [hcell]
      have hfirst := sameOff_update halive ⟨b.key, (f s b.key b.value).1, next⟩
      exact (hfirst.mono (by simp)).trans (hsame.mono (by simp))

/-! ### Loops that remove -/

/-- A slab after some handles were given up. -/
structure Without (ids : List Nat) (slab slab' : Slab κ ν) : Prop where
  gone : ∀ id ∈ ids, slab' id = none
  off : ∀ id, id ∉ ids → slab' id = slab id

/-- Removing along the links removes the chain, and takes its length off the count. -/
theorem Leads.removeFrom {bs : List (Binding κ ν)} : ∀ {fuel : Nat} {current : Option Nat}
    {slab : Slab κ ν} (remaining : Nat), Leads slab current bs → bs.length ≤ fuel →
      (bs.map (·.id)).Nodup →
      ∃ slab', Slab.removeFrom fuel current (bs.length + remaining) slab =
          some (remaining, slab') ∧ Without (bs.map (·.id)) slab slab' := by
  induction bs with
  | nil =>
    rintro fuel current slab remaining rfl - -
    refine ⟨slab, ?_, fun _ h => absurd h List.not_mem_nil, fun _ _ => rfl⟩
    unfold Slab.removeFrom
    simp
  | cons b bs ih =>
    rintro fuel current slab remaining ⟨rfl, next, hcell, hrest⟩ hfuel hnodup
    rw [List.map_cons, List.nodup_cons] at hnodup
    obtain ⟨fuel, rfl, hfuel'⟩ := exists_fuel hfuel
    obtain ⟨slab', hrun, hgone, hoff⟩ :=
      ih remaining (hrest.update hnodup.1 none) hfuel' hnodup.2
    refine ⟨slab', ?_, ?_, ?_⟩
    · have hcount : countDown ((b :: bs).length + remaining) = some (bs.length + remaining) := by
        rw [List.length_cons, Nat.add_right_comm]
        rfl
      unfold Slab.removeFrom
      simp only [hcell, hcount, Option.bind_eq_bind, Option.bind_some]
      exact hrun
    · intro id hid
      rcases List.mem_cons.mp hid with rfl | hid
      · rw [hoff _ hnodup.1, Function.update_self]
      · exact hgone id hid
    · intro id hid
      rw [List.map_cons, List.mem_cons, not_or] at hid
      rw [hoff id hid.2, Function.update_of_ne hid.1]

/-- Removing chain after chain removes them all. Nothing is left over when the count says
that nothing remains. -/
theorem removeAll_spec {fuel : Nat} {heads : List (Option Nat)}
    {chains : List (List (Binding κ ν))} : ∀ {slab : Slab κ ν},
      List.Forall₂ (Leads slab) heads chains → (chains.flatten.map (·.id)).Nodup →
      (∀ c ∈ chains, c.length ≤ fuel) →
      ∃ slab', Slab.removeAll fuel heads chains.flatten.length slab = some slab' ∧
        Without (chains.flatten.map (·.id)) slab slab' := by
  -- induction on the buckets; what remains is counted by the chains that are left
  induction heads generalizing chains with
  | nil =>
    intro slab hleads _ _
    cases hleads
    exact ⟨slab, rfl, fun _ h => absurd h List.not_mem_nil, fun _ _ => rfl⟩
  | cons head heads ih =>
    intro slab hleads hnodup hfuel
    obtain ⟨c, chains', hc, hrest, rfl⟩ := List.forall₂_cons_left_iff.mp hleads
    rw [List.flatten_cons, List.map_append, List.nodup_append] at hnodup
    obtain ⟨hnc, hnrest, hapart⟩ := hnodup
    unfold Slab.removeAll
    by_cases hzero : (c :: chains').flatten.length = 0
    · -- nothing remains, so that all chains that are left are empty
      rw [if_pos hzero]
      rw [List.length_eq_zero_iff.mp hzero]
      exact ⟨slab, rfl, fun _ h => absurd h List.not_mem_nil, fun _ _ => rfl⟩
    · rw [if_neg hzero]
      obtain ⟨slab₁, hrun, hgone, hoff⟩ :=
        hc.removeFrom chains'.flatten.length (hfuel c List.mem_cons_self) hnc
      -- the chains to come have other handles than the one that went
      have hrest₁ : List.Forall₂ (Leads slab₁) heads chains' := by
        obtain ⟨hlength, hzip⟩ := List.forall₂_iff_zip.mp hrest
        refine List.forall₂_iff_zip.mpr ⟨hlength, ?_⟩
        intro current bs hmem
        apply (hzip hmem).congr
        intro b hb
        apply hoff
        intro hgone
        exact hapart _ hgone _ (List.mem_map_of_mem
          (List.mem_flatten.mpr ⟨bs, (List.of_mem_zip hmem).2, hb⟩)) rfl
      obtain ⟨slab₂, hrun₂, hgone₂, hoff₂⟩ :=
        ih hrest₁ hnrest fun c hc => hfuel c (List.mem_cons_of_mem _ hc)
      refine ⟨slab₂, ?_, ?_, ?_⟩
      · rw [List.flatten_cons, List.length_append, hrun]
        exact hrun₂
      · intro id hid
        rw [List.flatten_cons, List.map_append, List.mem_append] at hid
        by_cases hlate : id ∈ chains'.flatten.map (·.id)
        · exact hgone₂ id hlate
        · rw [hoff₂ id hlate]
          exact hgone id (hid.resolve_right hlate)
      · intro id hid
        rw [List.flatten_cons, List.map_append, List.mem_append, not_or] at hid
        rw [hoff₂ id hid.2, hoff id hid.1]

/-! ### Leading past an entry -/

/-- Where the links lead after the first bindings of a chain. -/
theorem Leads.exists_rest {front rest : List (Binding κ ν)} : ∀ {current : Option Nat},
    Leads slab current (front ++ rest) → ∃ next, Leads slab next rest := by
  induction front with
  | nil => intro current h; exact ⟨current, h⟩
  | cons b front ih =>
    rintro current ⟨-, next, -, hrest⟩
    exact ih hrest

/-- Making an entry lead elsewhere cuts out what came after it. -/
theorem Leads.relink {front rest back : List (Binding κ ν)} {b : Binding κ ν}
    {next : Option Nat} (hback : Leads slab next back) (hb : b.id ∉ back.map (·.id)) :
    ∀ {current : Option Nat}, Leads slab current (front ++ b :: rest) →
      b.id ∉ front.map (·.id) →
      Leads (Function.update slab b.id (some ⟨b.key, b.value, next⟩)) current
        (front ++ b :: back) := by
  -- induction on what comes before the entry; none of it has its handle
  induction front with
  | nil =>
    rintro current ⟨rfl, -⟩ _
    exact ⟨rfl, next, Function.update_self .., hback.update hb _⟩
  | cons x front ih =>
    rintro current ⟨rfl, after, hcell, hrest⟩ hnot
    rw [List.map_cons, List.mem_cons, not_or] at hnot
    refine ⟨rfl, after, ?_, ih hrest hnot.2⟩
    rw [Function.update_of_ne (Ne.symm hnot.1)]
    exact hcell

end Slab

end TwinTable
