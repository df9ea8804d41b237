/-
How many calls a page of keys takes, and what a row of pages comes to.

A page is made by a loop with three ways out: the scan is over, there are keys enough, or
the calls that were allowed are used up. For a large count the third says nothing, since no
loop makes 2^64 calls, and the second need not come about if there are few keys; what
ends the loop then is that the ranks of the cursors go up. So the first of the three to come
about (`FirstStop`) does so within one call for each bucket of the smaller array in use,
wherever the scan begins.

`pageLoop` is the loop with the count of allowed calls taken down in each round, which must
not happen at zero. It ends at the first stop and gives the page (`pageLoop_eq`), the same as
`collectKeys` (`collectKeys_eq`).

Pages may be asked for with any counts. Each takes up the cursor of the one before, so that
together they make the calls of one scan from zero on, one after the other and none twice
(`exists_calls`).
-/
import TwinTable.Proofs.Dictionary.CursorClimb
import TwinTable.Proofs.Dictionary.Linked
import TwinTable.Proofs.Service.Contents

set_option autoImplicit false

namespace TwinTable.Service

namespace Store

open Dictionary Cursor

variable {d : Dictionary String String}

/-! ## Where the loop stops -/

/-- After so many calls there is a way out: the scan is over, there are keys enough, or no
more calls are allowed. -/
def Stops (d : Dictionary String String) (budget wanted : Nat) (v : UInt64) (calls : Nat) : Prop :=
  d.cursorFrom v calls = 0 ∨ wanted ≤ (d.visitedFrom v calls).length ∨ calls = budget

/-- The first call after which there is a way out. -/
def FirstStop (d : Dictionary String String) (budget wanted : Nat) (v : UInt64) (calls : Nat) :
    Prop :=
  IsLeast {k | 1 ≤ k ∧ Stops d budget wanted v k} calls

/-- The loop of a page: how many calls it makes, and the page. It fails if it takes down from
zero how many calls it is allowed, or takes more rounds than there is fuel. -/
def pageLoop (d : Dictionary String String) (count : Nat) : (fuel budget : Nat) →
    (keys : List String) → UInt64 → Option (Nat × Page)
  | 0, _, _, _ => none
  | fuel + 1, budget, keys, cursor =>
    let (entries, next) := d.scan cursor
    let keys := keys ++ entries.map fun b => b.key
    (countDown budget).bind fun budget =>
      if next = 0 || count ≤ keys.length || budget = 0 then
        some (1, ⟨next, keys⟩)
      else
        (pageLoop d count fuel budget keys next).map fun (calls, page) => (calls + 1, page)

variable {budget wanted : Nat} {v : UInt64} {calls : Nat}

/-- **A loop either stops after its first call**, or what is left of it is such a loop again,
with one call less allowed and fewer keys wanted. -/
theorem FirstStop.inv (h : FirstStop d (budget + 1) wanted v calls) :
    (calls = 1 ∧ ((d.scan v).2 = 0 ∨ wanted ≤ (d.scan v).1.length ∨ budget = 0)) ∨
    (¬((d.scan v).2 = 0 ∨ wanted ≤ (d.scan v).1.length ∨ budget = 0) ∧
      ∃ later, calls = 1 + later ∧
        FirstStop d budget (wanted - (d.scan v).1.length) (d.scan v).2 later) := by
  obtain ⟨⟨hpos, hstops⟩, hleast⟩ := h
  have hone : Stops d (budget + 1) wanted v 1 ↔
      (d.scan v).2 = 0 ∨ wanted ≤ (d.scan v).1.length ∨ budget = 0 := by
    rw [Stops, visitedFrom_one, eq_comm (a := 1), Nat.add_eq_right]
    rfl
  have hthen (k : Nat) : Stops d (budget + 1) wanted v (1 + k) ↔
      Stops d budget (wanted - (d.scan v).1.length) (d.scan v).2 k := by
    rw [Stops, Stops, cursorFrom_add, visitedFrom_add, visitedFrom_one, List.length_append,
      Nat.sub_le_iff_le_add', Nat.add_comm 1 k, Nat.add_right_cancel_iff]
    rfl
  by_cases hout : Stops d (budget + 1) wanted v 1
  · exact .inl ⟨Nat.le_antisymm (hleast ⟨le_refl _, hout⟩) hpos, hone.mp hout⟩
  · refine .inr ⟨fun h => hout (hone.mpr h), ?_⟩
    obtain ⟨later, rfl⟩ := Nat.exists_eq_add_of_le hpos
    have hlater : 1 ≤ later := Nat.pos_of_ne_zero fun hzero => hout (by rwa [hzero] at hstops)
    refine ⟨later, rfl, ⟨hlater, (hthen later).mp hstops⟩, fun k hk => ?_⟩
    exact Nat.le_of_add_le_add_left (hleast ⟨Nat.le_add_right 1 k, (hthen k).mpr hk.2⟩)

/-- Before the first stop the scan is not over. -/
theorem FirstStop.ne_zero (h : FirstStop d budget wanted v calls) :
    ∀ i, 1 ≤ i → i < calls → d.cursorFrom v i ≠ 0 := fun i hi hlt hzero =>
  absurd (h.2 ⟨hi, .inl hzero⟩) (by omega)

/-- **There is a first stop**, within the calls of a scan and those that are allowed. -/
theorem exists_firstStop (hd : d.Shape) (budget wanted : Nat) (v : UInt64) :
    ∃ calls, FirstStop d budget wanted v calls ∧ calls ≤ d.scanCalls := by
  obtain ⟨last, hpos, hle, hzero⟩ := hd.exists_last v
  have hlast : last ∈ {k | 1 ≤ k ∧ Stops d budget wanted v k} := ⟨hpos, .inl hzero⟩
  exact ⟨_, ⟨Nat.sInf_mem ⟨last, hlast⟩, fun k hk => Nat.sInf_le hk⟩,
    (Nat.sInf_le hlast).trans hle⟩

/-! ## What the loop comes to -/

/-- The keys that so many calls visit. -/
def keysFrom (d : Dictionary String String) (v : UInt64) (calls : Nat) : List String :=
  (d.visitedFrom v calls).map Binding.key

theorem keysFrom_add (d : Dictionary String String) (v : UInt64) (i j : Nat) :
    keysFrom d v (i + j) = keysFrom d v i ++ keysFrom d (d.cursorFrom v i) j := by
  rw [keysFrom, visitedFrom_add, List.map_append]
  rfl

theorem keysFrom_one (d : Dictionary String String) (v : UInt64) :
    keysFrom d v 1 = (d.scan v).1.map Binding.key := by
  rw [keysFrom, visitedFrom_one]

/-- **A page is what the calls up to the first stop visit.** -/
theorem collectKeys_eq (before : List String) (h : FirstStop d (budget + 1) wanted v calls) :
    collectKeys d (budget + 1) wanted before v =
      ⟨d.cursorFrom v calls, before.reverse ++ keysFrom d v calls⟩ := by
  -- induction on the calls that are allowed, as the loop goes
  induction budget generalizing wanted v calls before with
  | zero =>
    rcases h.inv with ⟨rfl, -⟩ | ⟨hon, -⟩
    · rw [collectKeys, keysFrom_one]
      simp [collectKeys, cursorFrom]
    · exact absurd (.inr (.inr rfl)) hon
  | succ budget ih =>
    rw [collectKeys]
    rcases h.inv with ⟨rfl, hout⟩ | ⟨hon, later, rfl, hfirst⟩
    · have hends : (d.scan v).2 = 0 ∨ wanted ≤ (d.scan v).1.length := by simpa using hout
      rw [keysFrom_one]
      simp [Nat.sub_eq_zero_iff_le, hends, cursorFrom]
    · have hgoes : ¬((d.scan v).2 = 0 ∨ wanted ≤ (d.scan v).1.length) := by simpa using hon
      rw [keysFrom_add, keysFrom_one, cursorFrom_add]
      simp only [Nat.sub_eq_zero_iff_le, Bool.or_eq_true, decide_eq_true_eq, hgoes, if_false]
      rw [ih _ hfirst]
      simp [cursorFrom]

/-- **The loop ends at the first stop**, with its count of allowed calls never taken below
zero. -/
theorem pageLoop_eq {fuel : Nat} (keys : List String)
    (h : FirstStop d (budget + 1) wanted v calls) (hfuel : calls ≤ fuel) :
    pageLoop d (keys.length + wanted) fuel (budget + 1) keys v =
      some (calls, ⟨d.cursorFrom v calls, keys ++ keysFrom d v calls⟩) := by
  -- induction on the fuel, of which each round takes one and each call is one round
  induction fuel generalizing budget wanted v calls keys with
  | zero => exact absurd h.1.1 (by omega)
  | succ fuel ih =>
    rw [pageLoop, countDown]
    rcases h.inv with ⟨rfl, hout⟩ | ⟨hon, later, rfl, hfirst⟩
    · rw [keysFrom_one]
      simp [or_assoc, hout, cursorFrom]
    · obtain ⟨budget, rfl⟩ : ∃ b, budget = b + 1 := ⟨budget - 1, by
        have hleft : budget ≠ 0 := fun hzero => hon (.inr (.inr hzero))
        omega⟩
      have hshort : (d.scan v).1.length ≤ wanted :=
        Nat.le_of_not_le fun hle => hon (.inr (.inl hle))
      have hcount : keys.length + wanted =
          (keys ++ (d.scan v).1.map Binding.key).length + (wanted - (d.scan v).1.length) := by
        rw [List.length_append, List.length_map, Nat.add_assoc, Nat.add_sub_cancel' hshort]
      have hloop := ih (keys ++ (d.scan v).1.map Binding.key) hfirst (by omega)
      rw [← hcount] at hloop
      rw [keysFrom_add, keysFrom_one, cursorFrom_add]
      simp only [Option.bind_some, Bool.or_eq_true, decide_eq_true_eq, List.length_append,
        List.length_map, Nat.add_le_add_iff_left, or_assoc, hon, if_false, hloop]
      simp [cursorFrom, Nat.add_comm]

/-! ## Rows of pages -/

/-- The cursor after so many pages of the counts given. -/
def rowCursor {σ : Type} (s : Store σ) (counts : Nat → Nat) : (pages : Nat) → UInt64
  | 0 => 0
  | pages + 1 => (s.page (s.rowCursor counts pages) (counts pages)).next

/-- The keys of so many pages. -/
def rowKeys {σ : Type} (s : Store σ) (counts : Nat → Nat) (pages : Nat) : List String :=
  (List.range pages).flatMap fun i => (s.page (s.rowCursor counts i) (counts i)).keys

variable {σ : Type} {s : Store σ}

/-- The calls that a page is allowed. -/
theorem exists_allowed (count : Nat) :
    ∃ budget, min (callsPerKey * max count 1) mostCalls = budget + 1 := by
  refine Nat.exists_eq_add_one.mpr (Nat.lt_min.mpr ⟨?_, by decide⟩)
  exact Nat.mul_pos (by decide) (Nat.le_max_right _ _)

/-- **A page makes the calls up to its first stop.** -/
theorem page_eq {cursor : UInt64} {count calls : Nat}
    (h : FirstStop s.dictionary (min (callsPerKey * max count 1) mostCalls) (max count 1) cursor
      calls) :
    s.page cursor count =
      ⟨s.dictionary.cursorFrom cursor calls, keysFrom s.dictionary cursor calls⟩ := by
  obtain ⟨budget, hbudget⟩ := exists_allowed count
  rw [page, hbudget]
  rw [hbudget] at h
  rw [collectKeys_eq [] h]
  rfl

/-- **Pages go through the calls of one scan**, one after the other, until the cursor is zero. -/
theorem exists_calls (hd : s.dictionary.Shape) (counts : Nat → Nat) : ∀ pages,
    (∀ i, 1 ≤ i → i < pages → s.rowCursor counts i ≠ 0) →
    ∃ calls ≤ s.dictionary.scanCalls, pages ≤ calls ∧ (pages = 0 → calls = 0) ∧
      s.rowCursor counts pages = s.dictionary.cursorFrom 0 calls ∧
      s.rowKeys counts pages = keysFrom s.dictionary 0 calls := by
  obtain ⟨hsome, hlast, -, -⟩ := hd.scan_calls
  intro pages
  induction pages with
  | zero => exact fun _ => ⟨0, Nat.zero_le _, le_refl _, fun _ => rfl, rfl, rfl⟩
  | succ pages ih =>
    intro hon
    obtain ⟨calls, hle, hpages, hzero, hrow, hkeys⟩ := ih fun i hi hlt => hon i hi (by omega)
    -- the scan is not over yet
    have hlt : calls < s.dictionary.scanCalls := by
      refine Nat.lt_of_le_of_ne hle fun heq => ?_
      rcases Nat.eq_zero_or_pos pages with hnone | hpos
      · exact absurd (hzero hnone) (by omega)
      · exact hon pages hpos (Nat.lt_succ_self _) (by rw [hrow, heq, hlast])
    obtain ⟨more, hfirst, -⟩ := exists_firstStop hd
      (min (callsPerKey * max (counts pages) 1) mostCalls) (max (counts pages) 1)
      (s.rowCursor counts pages)
    have hpage := page_eq hfirst
    have hmore : more ≤ s.dictionary.scanCalls - calls := by
      refine hfirst.2 ⟨by omega, .inl ?_⟩
      rw [hrow, ← cursorFrom_add, Nat.add_sub_cancel' hle, hlast]
    have hpos := hfirst.1.1
    refine ⟨calls + more, by omega, by omega, by omega, ?_, ?_⟩
    · rw [rowCursor, hpage, hrow, cursorFrom_add]
    · rw [rowKeys, List.range_succ, List.flatMap_append, List.flatMap_singleton, hpage, hrow,
        keysFrom_add, ← hkeys]
      rfl

/-- **A row of pages from zero comes to zero**, and has brought each entry by then. -/
theorem exists_last_page (hd : s.dictionary.Shape) (counts : Nat → Nat) :
    ∃ pages, 1 ≤ pages ∧ pages ≤ s.dictionary.scanCalls ∧ s.rowCursor counts pages = 0 ∧
      (∀ i, 1 ≤ i → i < pages → s.rowCursor counts i ≠ 0) ∧
      (s.rowKeys counts pages).Perm (s.dictionary.toList.map Binding.key) := by
  obtain ⟨-, -, hon, hvisited⟩ := hd.scan_calls
  have hends : ∃ pages, 1 ≤ pages ∧ s.rowCursor counts pages = 0 := by
    by_contra hnever
    -- or else there are more pages than calls
    obtain ⟨calls, hle, hpages, -⟩ := exists_calls hd counts (s.dictionary.scanCalls + 1)
      fun i hi _ hzero => hnever ⟨i, hi, hzero⟩
    omega
  obtain ⟨hpos, hrow⟩ := Nat.find_spec hends
  have hbefore : ∀ i, 1 ≤ i → i < Nat.find hends → s.rowCursor counts i ≠ 0 :=
    fun i hi hlt hzero => Nat.find_min hends hlt ⟨hi, hzero⟩
  obtain ⟨calls, hle, hpages, -, hcursor, hkeys⟩ := exists_calls hd counts _ hbefore
  have hall : calls = s.dictionary.scanCalls := by
    by_contra hne
    exact hon calls (by omega) (by omega) (hcursor.symm.trans hrow)
  refine ⟨Nat.find hends, hpos, hpages.trans hle, hrow, hbefore, ?_⟩
  rw [hkeys, hall]
  exact hvisited.map _

/-- **A scan by pages ends and is exact.** Whatever happened to a new store, a page for any
cursor and any count makes the calls up to the first after which the cursor is zero, there are
keys enough or no more calls are allowed. No page makes more calls than a scan of the
dictionary has, its count of allowed calls is never taken below zero, and the next cursor is
zero or has a greater rank than the one before. Pages from zero until zero, each with a count
of its own, bring every key exactly once. -/
theorem scan_by_pages (settings : Settings) (rounds : Nat) (g : WordSource σ) (words : σ)
    (events : List Event) :
    let s := (empty settings rounds g words).after events
    let d := s.dictionary
    (∀ (cursor : UInt64) (count : Nat),
      let wanted := max count 1
      let allowed := min (10 * wanted) (2 ^ 64 - 1)
      ∃ calls,
        IsLeast {k | 1 ≤ k ∧ (d.cursorFrom cursor k = 0 ∨
          wanted ≤ (d.visitedFrom cursor k).length ∨ k = allowed)} calls ∧
        calls ≤ (if d.isEmpty then 1 else d.fewestBuckets) ∧
        (∀ fuel, calls ≤ fuel →
          pageLoop d wanted fuel allowed [] cursor = some (calls, s.page cursor count)) ∧
        s.page cursor count =
          ⟨d.cursorFrom cursor calls, (d.visitedFrom cursor calls).map Binding.key⟩ ∧
        ((s.page cursor count).next = 0 ∨ rank cursor < rank (s.page cursor count).next)) ∧
    ∀ counts : Nat → Nat, ∃ pages,
      1 ≤ pages ∧ s.rowCursor counts pages = 0 ∧
      (∀ i, 1 ≤ i → i < pages → s.rowCursor counts i ≠ 0) ∧
      (s.rowKeys counts pages).Nodup ∧
      ∀ key, key ∈ s.rowKeys counts pages ↔ key ∈ Contents.after ∅ events := by
  intro s d
  have hholds : s.Holds (Contents.after ∅ events) :=
    ((holds_empty settings rounds g words).after events).1
  have hd : d.Shape := hholds.sound.shape
  refine ⟨fun cursor count => ?_, fun counts => ?_⟩
  · intro wanted allowed
    obtain ⟨calls, hfirst, hle⟩ := exists_firstStop hd allowed wanted cursor
    have hpage : s.page cursor count = ⟨d.cursorFrom cursor calls, keysFrom d cursor calls⟩ :=
      page_eq hfirst
    obtain ⟨budget, hbudget⟩ : ∃ budget, allowed = budget + 1 := exists_allowed count
    refine ⟨calls, hfirst, hle, fun fuel hfuel => ?_, hpage, ?_⟩
    · have hloop := pageLoop_eq [] (hbudget ▸ hfirst) hfuel
      rw [hpage, hbudget]
      rwa [List.length_nil, Nat.zero_add] at hloop
    · rw [hpage]
      exact hd.rank_lt_cursorFrom cursor calls hfirst.1.1 hfirst.ne_zero
  · obtain ⟨pages, hpos, -, hzero, hbefore, hperm⟩ := exists_last_page hd counts
    obtain ⟨hnodup, hmem⟩ := hholds.keys
    exact ⟨pages, hpos, hzero, hbefore, hperm.nodup_iff.mpr hnodup,
      fun key => hperm.mem_iff.trans (hmem key)⟩

end Store

end TwinTable.Service
