/-
Handles: no two bindings of a dictionary have the same one.

So a handle tells at most one place, and what is done to the binding with a handle leaves
all others alone. Whoever remembers handles instead of bindings relies on this: the links
between entries, and a walk that knows the entry to return next.
-/
import TwinTable.Proofs.Dictionary.Layout

set_option autoImplicit false

namespace TwinTable

/-! ## Handles of an array -/

namespace Buckets

variable {κ ν : Type} {t : Buckets κ ν}

/-- The handles of the bindings of an array, one for each. -/
def handles (t : Buckets κ ν) : List Nat := t.toList.map (·.id)

theorem mem_handles_of_chain {i : Nat} {b : Binding κ ν} (h : b ∈ t.chain i) :
    b.id ∈ t.handles :=
  List.mem_map_of_mem (mem_toList.mpr ⟨i, h⟩)

theorem handles_eq_flatMap (t : Buckets κ ν) :
    t.handles = (List.range t.size).flatMap fun i => (t.chain i).map (·.id) := by
  rw [handles, toList_eq_flatMap, List.map_flatMap]

theorem nodup_chain (h : t.handles.Nodup) (i : Nat) : ((t.chain i).map (·.id)).Nodup := by
  by_cases hi : i < t.size
  · rw [handles_eq_flatMap, List.nodup_flatMap] at h
    exact h.1 i (List.mem_range.mpr hi)
  · rw [chain_eq_nil (by omega)]
    exact List.nodup_nil

/-- Bindings in different buckets have different handles. -/
theorem id_notMem_of_chain (h : t.handles.Nodup) {i j : Nat} (hij : i ≠ j) {b : Binding κ ν}
    (hb : b ∈ t.chain j) : b.id ∉ (t.chain i).map (·.id) := by
  intro hmem
  obtain ⟨x, hx, -⟩ := List.mem_map.mp hmem
  rw [handles_eq_flatMap, List.nodup_flatMap] at h
  have hsymm : Std.Symm (Function.onFun List.Disjoint fun i => (t.chain i).map (·.id)) :=
    ⟨fun _ _ h => h.symm⟩
  have hapart := h.2.forall (List.mem_range.mpr (lt_size_of_mem hx))
    (List.mem_range.mpr (lt_size_of_mem hb)) hij
  exact hapart hmem (List.mem_map_of_mem hb)

end Buckets

/-! ## Handles of a dictionary -/

namespace Dictionary

variable {κ ν : Type} {d : Dictionary κ ν}

/-- The handles of all entries, one for each. -/
def handles (d : Dictionary κ ν) : List Nat := d.toList.map (·.id)

theorem handles_eq (d : Dictionary κ ν) : d.handles = d.main.handles ++ d.target.handles :=
  List.map_append

theorem Shape.nodup_side (hd : d.Shape) (s : Side) : (d.side s).handles.Nodup := by
  have hnodup : (d.main.handles ++ d.target.handles).Nodup := d.handles_eq ▸ hd.handles
  obtain ⟨hmain, htarget, -⟩ := List.nodup_append.mp hnodup
  cases s with
  | main => exact hmain
  | target => exact htarget

theorem mem_handles {id : Nat} : id ∈ d.handles ↔ ∃ s, id ∈ (d.side s).handles := by
  rw [handles_eq, List.mem_append]
  constructor
  · rintro (h | h)
    · exact ⟨.main, h⟩
    · exact ⟨.target, h⟩
  · rintro ⟨s, h⟩
    cases s with
    | main => exact .inl h
    | target => exact .inr h

theorem mem_handles_of_side {s : Side} {id : Nat} (h : id ∈ (d.side s).handles) :
    id ∈ d.handles :=
  mem_handles.mpr ⟨s, h⟩

/-- The two arrays have no handle in common. -/
theorem Shape.notMem_other (hd : d.Shape) {s s' : Side} (hs : s ≠ s') {id : Nat}
    (h : id ∈ (d.side s).handles) : id ∉ (d.side s').handles := by
  have hnodup : (d.main.handles ++ d.target.handles).Nodup := d.handles_eq ▸ hd.handles
  obtain ⟨-, -, hapart⟩ := List.nodup_append.mp hnodup
  intro h'
  cases s <;> cases s'
  · exact hs rfl
  · exact hapart _ h _ h' rfl
  · exact hapart _ h' _ h rfl
  · exact hs rfl

/-- No chain has more entries than handles were given out. -/
theorem Shape.length_chain_le (hd : d.Shape) (s : Side) (i : Nat) :
    ((d.side s).chain i).length ≤ d.nextId := by
  have hsub : ((d.side s).chain i).map (·.id) ⊆ List.range d.nextId := by
    intro id hid
    obtain ⟨b, hb, rfl⟩ := List.mem_map.mp hid
    exact List.mem_range.mpr (hd.issued b (mem_toList.mpr ⟨s, i, hb⟩))
  -- different handles below the next one, so at most as many as there are such numbers
  have hnodup := Buckets.nodup_chain (hd.nodup_side s) i
  simpa using (List.subperm_of_subset hnodup hsub).length_le

/-- **A handle has one place.** -/
theorem Shape.place_unique (hd : d.Shape) {s s' : Side} {i i' : Nat} {b b' : Binding κ ν}
    (hb : b ∈ (d.side s).chain i) (hb' : b' ∈ (d.side s').chain i') (hid : b.id = b'.id) :
    s = s' ∧ i = i' := by
  have hside : s = s' := by
    by_contra hne
    refine hd.notMem_other hne (Buckets.mem_handles_of_chain hb) ?_
    rw [hid]
    exact Buckets.mem_handles_of_chain hb'
  subst hside
  refine ⟨rfl, ?_⟩
  by_contra hne
  refine Buckets.id_notMem_of_chain (hd.nodup_side s) hne hb' ?_
  rw [← hid]
  exact List.mem_map_of_mem hb

end Dictionary

end TwinTable
