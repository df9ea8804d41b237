/-
Whatever a dictionary hands out is in it.

Searches are treated elsewhere, since they also have to find what is there. The readers of
this file look into buckets that a random word, a cursor or a walk points at, in range or
not; that they make nothing up needs no invariant at all. Each of them ends in a chain of
one of the two arrays, and what is in a chain is in the dictionary.
-/
import TwinTable.Proofs.Dictionary.Layout
import TwinTable.Dictionary.Cursor
import TwinTable.Dictionary.Pick
import TwinTable.Dictionary.Walk

set_option autoImplicit false

namespace TwinTable

namespace Dictionary

variable {κ ν σ : Type} {d : Dictionary κ ν}

/-- What is in some chain is in the dictionary; no bucket past the end has a chain, so the index
need not be in range. -/
theorem mem_toList_of_mem_chain {s : Side} {i : Nat} {b : Binding κ ν}
    (h : b ∈ (d.side s).chain i) : b ∈ d.toList :=
  mem_toList.mpr ⟨s, i, h⟩

/-! ## Random entries -/

/-- A number stands for a bucket of one of the arrays, those past the main array for the
target's. -/
theorem mem_toList_of_mem_numbered {h : Nat} {b : Binding κ ν} (hb : b ∈ d.numbered h) :
    b ∈ d.toList := by
  rw [numbered] at hb
  split at hb
  · exact mem_toList_of_mem_chain (s := .target) hb
  · exact mem_toList_of_mem_chain (s := .main) hb

/-- A chain that is drawn is one of the numbered ones. -/
theorem exists_of_drawChain (g : WordSource σ) : ∀ (tries : Nat) (words : σ)
    (chain : List (Binding κ ν)), (d.drawChain g tries words).1 = some chain →
      ∃ h, d.numbered h = chain := by
  intro tries
  -- induction on the tries; an empty bucket costs one, and any other is the answer
  induction tries with
  | zero =>
    intro words chain h
    exact absurd h (by simp [drawChain])
  | succ tries ih =>
    intro words chain h
    rw [drawChain] at h
    revert h
    rcases d.drawBucket g words with ⟨number, words'⟩
    intro h
    dsimp only at h
    split at h
    · exact ih _ _ h
    · exact ⟨number, by simpa using h⟩

/-- **What is picked is there**, in the dictionary as the draw leaves it: a bucket moved along
before the draw. -/
theorem mem_of_pick (g : WordSource σ) (r : Rules κ ν) (words : σ) {b : Binding κ ν}
    (h : (d.pick g r words).1 = some b) : b ∈ (d.pick g r words).2.2.toList := by
  rw [pick] at h ⊢
  split at h
  · exact absurd h (by simp)
  · rename_i hne
    rw [if_neg hne]
    dsimp only at h ⊢
    rcases hdraw : (d.migrateStep r).drawChain g patience words with ⟨_ | chain, words'⟩
    · rw [hdraw] at h
      exact absurd h (by simp)
    · rw [hdraw] at h
      obtain ⟨number, hn⟩ := exists_of_drawChain g patience words chain (by rw [hdraw])
      refine mem_toList_of_mem_numbered (h := number) ?_
      rw [hn]
      exact List.mem_of_getElem? h

/-- A round that hits, hits an entry of a numbered chain. -/
theorem exists_of_drawEntry (g : WordSource σ) (longest : Nat) : ∀ (tries : Nat) (words : σ)
    (b : Binding κ ν), (d.drawEntry g longest tries words).1 = some b → b ∈ d.toList := by
  intro tries
  induction tries with
  | zero =>
    intro words b h
    exact absurd h (by simp [drawEntry])
  | succ tries ih =>
    intro words b h
    rw [drawEntry] at h
    revert h
    rcases d.drawBucket g words with ⟨number, words'⟩
    dsimp only
    rcases g.below longest words' with ⟨position, words''⟩
    dsimp only
    rcases hb : (d.numbered number)[position]? with _ | x
    · exact ih _ _
    · intro h
      obtain rfl : x = b := by simpa using h
      exact mem_toList_of_mem_numbered (List.mem_of_getElem? hb)

/-- **What is picked fairly is there** as well. -/
theorem mem_of_pickFairly (g : WordSource σ) (r : Rules κ ν) (words : σ) {b : Binding κ ν}
    (h : (d.pickFairly g r words).1 = some b) : b ∈ (d.pickFairly g r words).2.2.toList := by
  rw [pickFairly] at h ⊢
  split at h
  · exact absurd h (by simp)
  · rename_i hne
    rw [if_neg hne]
    dsimp only at h ⊢
    split at h
    · exact absurd h (by simp)
    · rename_i hlong
      rw [if_neg hlong]
      exact exists_of_drawEntry g _ patience words b h

/-- A look into a bucket takes entries of that bucket, or none. -/
theorem taken_sampleIn (g : WordSource σ) (count span : Nat) (s : Side) (p : Sampling κ ν σ)
    (hp : ∀ b ∈ p.taken, b ∈ d.toList) :
    ∀ b ∈ (d.sampleIn g count span s p).taken, b ∈ d.toList := by
  have hfrom : ∀ (q : Sampling κ ν σ) (chain : List (Binding κ ν)),
      (∀ b ∈ q.taken, b ∈ d.toList) → (∀ b ∈ chain, b ∈ d.toList) →
      ∀ b ∈ (q.takeFrom chain).taken, b ∈ d.toList := by
    intro q chain hq hchain b hb
    rw [Sampling.takeFrom] at hb
    rcases List.mem_append.mp hb with h | h
    · exact hchain b (List.mem_of_mem_take (List.mem_reverse.mp h))
    · exact hq b h
  rw [sampleIn]
  dsimp only
  split
  · exact hp
  · -- a position behind the frontier takes the frontier's place; nothing is taken by that
    generalize hq : (if (decide (s = .main) && d.hasMoved p.position) = true then
      { p with position := d.firstLive } else p) = q
    have hqp : ∀ b ∈ q.taken, b ∈ d.toList := by
      rw [← hq]
      split <;> exact hp
    split_ifs
    · exact hqp
    · exact hqp
    · exact hqp
    · exact hqp
    · exact hfrom _ _ hqp fun b hb => mem_toList_of_mem_chain hb

/-- So all that is taken along the way is in the dictionary, and jumps do not matter. -/
theorem taken_sampleFrom (g : WordSource σ) (count span : Nat) : ∀ (steps : Nat)
    (p : Sampling κ ν σ), (∀ b ∈ p.taken, b ∈ d.toList) →
      ∀ b ∈ (d.sampleFrom g count span steps p).taken, b ∈ d.toList := by
  intro steps
  induction steps with
  | zero => intro p hp; exact hp
  | succ steps ih =>
    intro p hp
    have hmain := taken_sampleIn g count span .main p hp
    have htarget := taken_sampleIn g count span .target _ hmain
    rw [sampleFrom]
    dsimp only
    split_ifs
    · exact hmain
    · exact htarget
    · exact ih _ htarget
    · exact ih _ hmain

/-- **What is sampled is there**, in the dictionary as the sample leaves it. Buckets are moved
before any is looked into, so the sample looks into one and the same layout throughout. -/
theorem mem_of_sample (g : WordSource σ) (r : Rules κ ν) (count : Nat) (words : σ)
    {b : Binding κ ν} (h : b ∈ (d.sample g r count words).1) :
    b ∈ (d.sample g r count words).2.2.toList := by
  rw [sample] at h ⊢
  dsimp only at h ⊢
  split at h
  · exact absurd h List.not_mem_nil
  · rename_i hne
    rw [if_neg hne]
    exact taken_sampleFrom g _ _ _ _ (fun _ hx => absurd hx List.not_mem_nil) b
      (List.mem_reverse.mp h)

/-! ## Cursors -/

/-- **What is scanned is there**: a call returns the chains of the buckets that its cursor
covers, whatever the cursor. -/
theorem mem_of_scan {cursor : UInt64} {b : Binding κ ν} (h : b ∈ (d.scan cursor).1) :
    b ∈ d.toList := by
  obtain ⟨bucket, -, hb⟩ := List.mem_flatMap.mp h
  exact mem_toList_of_mem_chain hb

/-! ## Walks -/

/-- The binding with the handle comes from the chain that was searched for it. -/
theorem mem_of_suffix? {id : Nat} : ∀ {chain rest : List (Binding κ ν)} {b : Binding κ ν},
    suffix? id chain = some (b, rest) → b ∈ chain := by
  intro chain
  -- induction on the chain, as the handle is looked for
  induction chain with
  | nil => intro rest b h; exact absurd h (by simp [suffix?])
  | cons x chain ih =>
    intro rest b h
    rw [suffix?] at h
    split at h
    · obtain ⟨rfl, -⟩ : x = b ∧ chain = rest := by simpa using h
      exact List.mem_cons_self
    · exact List.mem_cons_of_mem _ (ih h)

/-- The same over a whole array, where a walk looks for its binding once it is not in its chain
any more. -/
theorem mem_of_findSome?_suffix? {t : Buckets κ ν} {id : Nat} {b : Binding κ ν}
    {rest : List (Binding κ ν)} (h : t.chains.findSome? (suffix? id) = some (b, rest)) :
    b ∈ t.toList := by
  obtain ⟨chain, hc, hb⟩ := Array.exists_of_findSome?_eq_some h
  exact List.mem_flatten.mpr ⟨chain, Array.mem_toList_iff.mpr hc, mem_of_suffix? hb⟩

/-- A walk goes on at the binding that it was to return next, wherever that has moved. -/
theorem mem_of_resume? {s : Side} {i id : Nat} {b : Binding κ ν} {rest : List (Binding κ ν)}
    (h : d.resume? s i id = some (b, rest)) : b ∈ d.toList := by
  rw [resume?] at h
  split at h
  · -- it is found where the walk was, or else in whichever array it has come to
    rename_i found hfound
    rw [h] at hfound
    exact mem_toList_of_mem_chain (mem_of_suffix? hfound)
  · split at h
    · rename_i found hfound
      rw [h] at hfound
      exact List.mem_append_left _ (mem_of_findSome?_suffix? hfound)
    · exact List.mem_append_right _ (mem_of_findSome?_suffix? h)

/-- The next chain that is not empty is the chain of its bucket. -/
theorem chain_of_nextChain? {t : Buckets κ ν} : ∀ {count start i : Nat} {b : Binding κ ν}
    {rest : List (Binding κ ν)}, t.nextChain? count start = some (i, b, rest) →
      t.chain i = b :: rest := by
  intro count
  -- induction on the buckets that are left; the start goes up with each
  induction count with
  | zero => intro start i b rest h; exact absurd h (by simp [Buckets.nextChain?])
  | succ count ih =>
    intro start i b rest h
    rw [Buckets.nextChain?] at h
    split at h
    · rename_i x xs hc
      obtain ⟨rfl, rfl, rfl⟩ : start = i ∧ x = b ∧ xs = rest := by simpa using h
      exact hc
    · exact ih h

/-- A walk that enters an array enters at the head of a chain. -/
theorem mem_of_enterIn {w : Walk} {s : Side} {i : Nat} {b : Binding κ ν}
    (h : (w.enterIn d s i).1 = some b) : b ∈ d.toList := by
  rw [Walk.enterIn] at h
  split at h
  · rename_i j x rest hc
    obtain rfl : x = b := by simpa using h
    refine mem_toList_of_mem_chain (s := s) (i := j) ?_
    rw [chain_of_nextChain? hc]
    exact List.mem_cons_self
  · exact absurd h (by simp)

/-- A walk that has come to the end of the main array enters the target, if entries are on the
move. -/
theorem mem_of_enter {w : Walk} {b : Binding κ ν} (h : (w.enter d).1 = some b) :
    b ∈ d.toList := by
  rw [Walk.enter] at h
  rcases hfirst : w.enterIn d w.side w.index with ⟨_ | x, w'⟩
  · rw [hfirst] at h
    dsimp only at h
    split at h
    · exact mem_of_enterIn h
    · exact absurd h (by simp)
  · rw [hfirst] at h
    exact mem_of_enterIn (w := w) (s := w.side) (i := w.index) (by rw [hfirst]; exact h)

/-- **What a walk returns is there**, also when the table was changed since its last step. -/
theorem mem_of_next {w : Walk} {b : Binding κ ν} (h : (w.next d).1 = some b) :
    b ∈ d.toList := by
  rw [Walk.next] at h
  split at h
  · exact mem_of_enter h
  · split at h
    · rename_i x rest hres
      obtain rfl : x = b := by simpa using h
      exact mem_of_resume? hres
    · exact mem_of_enter h

end Dictionary

end TwinTable
