/-
A scan misses no key that stays.

A scan is a row of calls, each with the cursor that the one before returned, from zero on
until zero is returned; anything may be done to the dictionary between two calls. A call
covers the ranks from its cursor up to the next (`mem_scan`): an entry whose hash has a rank
in between is visited, in whichever array it lies and whatever sizes the arrays have just
now. The rank of a key does not depend on the arrays at all. So as long as a key was not
visited its rank is not below the cursor, which is what the induction over the calls
carries; and the last call covers all ranks that are left.
-/
import TwinTable.Proofs.Dictionary.CursorOrder

set_option autoImplicit false

namespace TwinTable

open Cursor

namespace Dictionary

variable {κ ν : Type} {d : Dictionary κ ν}

/-- An interval of ranks ends where the next cursor stands, or with the last rank. -/
theorem rank_div_eq_of_lt_next {n : Nat} (hn : n ≤ 64) {v h : UInt64} (hle : rank v ≤ rank h)
    (hlt : ofRank ((rank v / 2 ^ (64 - n) + 1) * 2 ^ (64 - n)) = 0 ∨
      rank h < rank (ofRank ((rank v / 2 ^ (64 - n) + 1) * 2 ^ (64 - n)))) :
    rank h / 2 ^ (64 - n) = rank v / 2 ^ (64 - n) := by
  have hfrom := Nat.div_le_div_right (c := 2 ^ (64 - n)) hle
  have hv := rank_div_lt hn v
  have hh := rank_div_lt hn h
  rcases Nat.lt_or_ge (rank v / 2 ^ (64 - n) + 1) (2 ^ n) with hmore | hlast
  · -- there is a next interval, so the next cursor is not zero
    have hrank := rank_ofRank_mul hn hmore
    have hbelow : rank h < (rank v / 2 ^ (64 - n) + 1) * 2 ^ (64 - n) := by
      rcases hlt with hzero | hlt
      · rw [hzero, rank_zero] at hrank
        exact absurd hrank.symm (Nat.mul_ne_zero (Nat.succ_ne_zero _) (Nat.two_pow_pos _).ne')
      · rwa [hrank] at hlt
    have hto := (Nat.div_lt_iff_lt_mul (Nat.two_pow_pos (64 - n))).mpr hbelow
    omega
  · omega

/-- **One call covers all ranks from its cursor to the next**: the bucket of such a hash is
covered in every array in use. -/
theorem mem_cover (hd : d.Shape) (hne : d.isEmpty = false) {v h : UInt64}
    (hle : rank v ≤ rank h) (hlt : (d.cover v).2 = 0 ∨ rank h < rank (d.cover v).2) {s : Side}
    (hs : (d.side s).size ≠ 0) : (s, (d.side s).index h) ∈ (d.cover v).1 := by
  by_cases hm : d.migrating = true
  · obtain ⟨small, large, a, b, hother, hab, hb, hsmall, hlarge, hcover⟩ :=
      cover_migrating hd hne hm
    rw [hcover] at hlt ⊢
    have hinside := rank_div_eq_of_lt_next (by omega : a ≤ 64) hle hlt
    have hside : s = small ∨ s = large := by
      cases s <;> cases small <;> cases large <;> simp_all
    rcases hside with rfl | rfl
    · rw [Buckets.index_eq (by omega) hsmall, mod_eq_bucketAt (by omega), hinside]
      exact List.mem_cons_self
    · rw [Buckets.index_eq hb hlarge, mod_eq_bucketAt (by omega)]
      refine List.mem_cons_of_mem _ (List.mem_map_of_mem ?_)
      -- the interval of the hash in the larger array is one of those that are left
      have hsplit : 2 ^ (64 - b) * 2 ^ (b - a) = 2 ^ (64 - a) := by
        rw [← Nat.pow_add]
        congr 1
        omega
      rw [← hsplit, ← Nat.div_div_eq_div_mul, ← Nat.div_div_eq_div_mul] at hinside
      have hfrom := Nat.div_le_div_right (c := 2 ^ (64 - b)) hle
      have hv := Nat.div_add_mod (rank v / 2 ^ (64 - b)) (2 ^ (b - a))
      have hh := Nat.div_add_mod (rank h / 2 ^ (64 - b)) (2 ^ (b - a))
      have hhlt := Nat.mod_lt (rank h / 2 ^ (64 - b)) (Nat.two_pow_pos (b - a))
      have hvlt := Nat.mod_lt (rank v / 2 ^ (64 - b)) (Nat.two_pow_pos (b - a))
      rw [hinside] at hh
      rw [List.mem_range'_1]
      omega
  · have hsettled : d.migrating = false := by simpa using hm
    cases s with
    | target =>
      rw [side, hd.settled (migrating_eq_false.mp hsettled)] at hs
      exact absurd Buckets.size_unallocated hs
    | main =>
      obtain ⟨n, -, hn, hsize⟩ := hd.main.exists_size hs
      rw [cover_settled hne hsettled hn hsize] at hlt ⊢
      have hinside := rank_div_eq_of_lt_next (by omega : n ≤ 64) hle hlt
      rw [side, Buckets.index_eq hn hsize, mod_eq_bucketAt (by omega), hinside]
      exact List.mem_singleton_self _

/-- So an entry whose hash has such a rank is visited. -/
theorem mem_scan {K : Keying κ ν} {seed : Seed} (hd : d.Sound K seed) {b : Binding κ ν}
    (hb : b ∈ d.toList) {v : UInt64} (hle : rank v ≤ rank (K.hash seed b.key))
    (hlt : (d.scan v).2 = 0 ∨ rank (K.hash seed b.key) < rank (d.scan v).2) :
    b ∈ (d.scan v).1 := by
  obtain ⟨s, i, hi⟩ := mem_toList.mp hb
  have hne : d.isEmpty = false := by
    have hpos := List.length_pos_of_mem hb
    rw [← hd.shape.size_eq] at hpos
    exact decide_eq_false (by omega)
  have hsize : (d.side s).size ≠ 0 := Nat.ne_of_gt (Nat.zero_lt_of_lt (Buckets.lt_size_of_mem hi))
  have hcovered := mem_cover hd.shape hne hle hlt hsize
  rw [hd.filed s i b hi] at hcovered
  exact List.mem_flatMap.mpr ⟨(s, i), hcovered, hi⟩

end Dictionary

namespace Situation

variable {κ ν σ : Type} (K : Keying κ ν) (g : WordSource σ)

/-- A scan from a situation and a cursor on to its end: the situations in which its calls are
made, and the entries that are visited. After each call but the last come any operations. -/
inductive Scan : Situation κ ν σ → UInt64 → List (Situation κ ν σ) → List (Binding κ ν) → Prop
  | last {s : Situation κ ν σ} {cursor : UInt64} (ends : (s.dictionary.scan cursor).2 = 0) :
      Scan s cursor [s] (s.dictionary.scan cursor).1
  | call {s : Situation κ ν σ} {cursor : UInt64} {calls : List (Situation κ ν σ)}
      {visited : List (Binding κ ν)} (between : List (Operation κ ν))
      (goesOn : (s.dictionary.scan cursor).2 ≠ 0)
      (rest : Scan (s.after K g between) (s.dictionary.scan cursor).2 calls visited) :
      Scan s cursor (s :: calls) ((s.dictionary.scan cursor).1 ++ visited)

variable {K}

/-- A key whose rank is not below the cursor, and which is there at every call, is visited. -/
theorem Scan.exists_visited (hK : K.Lawful) {k : κ} {s : Situation κ ν σ} {cursor : UInt64}
    {calls : List (Situation κ ν σ)} {visited : List (Binding κ ν)}
    (run : Scan K g s cursor calls visited) :
    s.dictionary.Sound K s.settings.seed →
    rank cursor ≤ rank (K.hash s.settings.seed k) →
    (∀ t ∈ calls, ∃ b ∈ t.dictionary.toList, K.same k b.key = true) →
    ∃ b ∈ visited, K.same k b.key = true := by
  -- induction on the calls of the scan; that the rank is not below the cursor is what is carried
  induction run with
  | @last s cursor ends =>
    intro hs hle hstays
    obtain ⟨b, hb, hk⟩ := hstays s List.mem_cons_self
    rw [hK.hash_same _ _ _ hk] at hle
    exact ⟨b, Dictionary.mem_scan hs hb hle (.inl ends), hk⟩
  | @call s cursor calls visited between goesOn rest ih =>
    intro hs hle hstays
    obtain ⟨b, hb, hk⟩ := hstays s List.mem_cons_self
    -- either this call covers the rank, or the next cursor is not above it either
    rcases Nat.lt_or_ge (rank (K.hash s.settings.seed k)) (rank (s.dictionary.scan cursor).2)
      with hlt | hge
    · rw [hK.hash_same _ _ _ hk] at hle hlt
      exact ⟨b, List.mem_append_left _ (Dictionary.mem_scan hs hb hle (.inr hlt)), hk⟩
    · have hseed := seed_after K g between s
      have hs' : (s.after K g between).dictionary.Sound K (s.after K g between).settings.seed :=
        hseed.symm ▸ sound_after_of g hK between s hs
      obtain ⟨b', hb', hk'⟩ := ih hs' (hseed.symm ▸ hge)
        fun t ht => hstays t (List.mem_cons_of_mem _ ht)
      exact ⟨b', List.mem_append_right _ hb', hk'⟩

/-- **A scan misses no key that stays.** From any situation that a new dictionary can come to,
a scan that begins at zero and goes on to its end, with any operations between its calls,
visits every key that the dictionary has at each of the calls. -/
theorem scan_visits_every_lasting_key (hK : K.Lawful) (settings : Settings) (words : σ)
    (earlier : List (Operation κ ν)) {calls : List (Situation κ ν σ)}
    {visited : List (Binding κ ν)}
    (run : Scan K g ((start settings words).after K g earlier) 0 calls visited) (k : κ)
    (stays : ∀ t ∈ calls, ∃ b ∈ t.dictionary.toList, K.same k b.key = true) :
    ∃ b ∈ visited, K.same k b.key = true := by
  have hseed := seed_after K g earlier (start settings words)
  refine run.exists_visited g hK ?_ ?_ stays
  · rw [hseed]
    exact sound_after g hK settings words earlier
  · rw [rank_zero]
    exact Nat.zero_le _

/-- A scan under which an array of four gives way to one of eight, and the key six moves. -/
theorem scan_visits_six_on_the_move :
    ∃ calls visited, Scan (Keying.numbers String) WordSource.splitMix
        ((start .standard 0).after (Keying.numbers String) WordSource.splitMix
          [.add 1 "one", .add 6 "six"]) 0 calls visited ∧
      ∃ b ∈ visited, (Keying.numbers String).same 6 b.key = true := by
  have run : Scan (Keying.numbers String) WordSource.splitMix
      ((start .standard 0).after (Keying.numbers String) WordSource.splitMix
        [.add 1 "one", .add 6 "six"]) 0 _ _ :=
    .call [.expand 8] (by decide +kernel) <| .call [.migrate 2] (by decide +kernel) <|
      .call [] (by decide +kernel) <| .call [] (by decide +kernel) <|
      .call [] (by decide +kernel) <| .last (by decide +kernel)
  exact ⟨_, _, run, scan_visits_every_lasting_key WordSource.splitMix
    (Keying.lawful_numbers String) .standard 0 _ run 6 (by decide +kernel)⟩

end Situation

end TwinTable
