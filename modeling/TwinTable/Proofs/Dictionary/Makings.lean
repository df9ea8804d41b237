/-
What operations on keys are made of.

Before it turns to its key, an operation moves a bucket along. All that it does after that is
little: it lets the table grow, issues a handle, puts events and notices into the outbox, and
changes one of the arrays in place by pushing a binding, erasing one or revising values. A
property that all of these keep is `Local`, and it holds after an operation if it held once the
bucket had been moved. What is said of whole operations elsewhere is said of these few.
-/
import TwinTable.Proofs.Dictionary.History

set_option autoImplicit false

namespace TwinTable

namespace Dictionary

variable {κ ν : Type}

/-- A search moves a bucket along, if there is anything to be found. -/
theorem find_snd (r : Rules κ ν) (d : Dictionary κ ν) (k : κ) :
    (d.find r k).2 = d ∨ (d.find r k).2 = d.migrateStep r := by
  rw [find]
  split
  · exact .inl rfl
  · exact .inr rfl

/-- What is kept by all that an operation on keys does besides moving entries. Whatever is
changed in place, the array keeps its size. -/
structure Local (r : Rules κ ν) (P : Dictionary κ ν → Prop) : Prop where
  note : ∀ {d : Dictionary κ ν} (n : Notice), P d → P (d.note n)
  hand : ∀ {d : Dictionary κ ν} (c : Custody κ ν), P d → P (d.hand c)
  issue : ∀ {d : Dictionary κ ν}, P d → P { d with nextId := d.nextId + 1 }
  growIfNeeded : ∀ {d : Dictionary κ ν}, P d → P (d.growIfNeeded r)
  push : ∀ {d : Dictionary κ ν} (i : Nat) (b : Binding κ ν), P d →
    P (d.modifySide d.receiving fun t => t.push i b)
  erase : ∀ {d : Dictionary κ ν} (p : Place), P d →
    P (d.modifySide p.side fun t => t.erase p.index p.id)
  revise : ∀ {d : Dictionary κ ν} (s : Side) {f : Buckets κ ν → Buckets κ ν},
    (∀ t, (f t).size = t.size) → (d.side s).SameLabels (f (d.side s)) → P d → P (d.modifySide s f)

namespace Local

variable {r : Rules κ ν} {P : Dictionary κ ν → Prop} (hP : Local r P) {d : Dictionary κ ν}
include hP

theorem handAll (cs : List (Custody κ ν)) : ∀ {d : Dictionary κ ν}, P d → P (d.handAll cs) := by
  induction cs with
  | nil => intro d h; exact h
  | cons c cs ih => intro d h; exact ih (hP.hand c h)

/-- A value is set in the array of its place; the labels of the chain stay. -/
theorem setAt (p : Place) (f : Value ν → Value ν) (h : P d) : P (d.setAt p f) :=
  hP.revise p.side (fun t => t.size_modifyValue p.index p.id f)
    (Buckets.sameLabels_modifyValue _ p.index p.id f) h

/-- Storing an object hands over the copy and sets it. -/
theorem store (p : Place) (v : ν) (h : P d) : P (d.store r p v) :=
  hP.setAt p _ (hP.hand _ h)

/-- A new binding takes a handle, is told of, and is pushed in front of its chain, in this
order. -/
theorem link (k : κ) (hash : UInt64) (h : P d) : P (d.link r k hash).2 := by
  rw [link_eq]
  exact hP.push (d := { d with nextId := d.nextId + 1 }.hand _) _ _ (hP.hand _ (hP.issue h))

theorem reviseBuckets {τ : Type} (f : τ → κ → Value ν → Value ν × τ)
    (buckets : List Cursor.Bucket) : ∀ (before : List (List (Binding κ ν))) (s : τ)
      {d : Dictionary κ ν}, P d → P (reviseBuckets f before buckets s d).2.2 := by
  induction buckets with
  | nil => intro before s d h; exact h
  | cons b buckets ih =>
    intro before s d h
    rw [Dictionary.reviseBuckets]
    exact ih _ _ (hP.revise b.1 (fun t => Array.size_modify ..)
      (Buckets.sameLabels_modify _ _ _ (map_label_reviseChain f _ s)) h)

/-! After a bucket has been moved along -/

/-- A claim lets the table grow if it must, and then either finds the key or links a new
binding. -/
theorem claim (k : κ) (h : P (d.migrateStep r)) : P (d.claim r k).2 := by
  have hready := hP.growIfNeeded h
  rw [Dictionary.claim]
  dsimp only
  split
  · exact hready
  · exact hP.link k _ hready

/-- An addition is a claim, and stores its value only behind one that made an entry. If the key
was there, nothing else happens. -/
theorem add (k : κ) (v : ν) (h : P (d.migrateStep r)) : P (d.add r k v).2 := by
  have hclaim := hP.claim k h
  rw [Dictionary.add]
  revert hclaim
  rcases d.claim r k with ⟨p | p, d'⟩
  · exact hP.store p v
  · exact id

/-- A replacement is a claim that stores in either case, and gives up the value that was
there. -/
theorem replace (k : κ) (v : ν) (h : P (d.migrateStep r)) : P (d.replace r k v).2 := by
  have hclaim := hP.claim k h
  rw [Dictionary.replace]
  revert hclaim
  rcases d.claim r k with ⟨p | p, d'⟩
  · exact hP.store p v
  · intro hclaim
    dsimp only
    split
    · exact hP.handAll _ (hP.store p v hclaim)
    · exact hP.store p v hclaim

/-- A search may end before a bucket has moved, as there is nothing to be found in an empty
table. So the property is needed of the dictionary as it was, too. -/
theorem unlink (k : κ) (h₀ : P d) (h : P (d.migrateStep r)) : P (d.unlink r k).2 := by
  have hfind : P (d.find r k).2 := by
    rcases find_snd r d k with he | he
    · rwa [he]
    · rwa [he]
  rw [Dictionary.unlink]
  revert hfind
  rcases d.find r k with ⟨_ | p, d'⟩
  · exact id
  · exact hP.erase p

/-- A deletion gives up what was unlinked. -/
theorem delete (k : κ) (h₀ : P d) (h : P (d.migrateStep r)) : P (d.delete r k).2 := by
  have hunlink := hP.unlink k h₀ h
  rw [Dictionary.delete]
  revert hunlink
  rcases d.unlink r k with ⟨_ | b, d'⟩
  · exact id
  · exact hP.handAll _

end Local

end Dictionary

end TwinTable
