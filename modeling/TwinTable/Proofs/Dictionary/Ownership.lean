/-
Every copy of a key or an object has one owner, and is freed once.

The log of custody says which copies were made and which were freed. What was copied and not
yet freed belongs to somebody: to the binding in the dictionary that holds it, or to a
binding that was handed out by `unlink` and has not come back to `discard`. The books
balance (`Balanced`) if both sides agree, for keys and for objects, counted with
multiplicity. So nothing is freed that was not copied, nothing twice, and nothing gets lost.

Only a few steps write to the log, and each is an entry on both sides: a copied key comes
with a blank binding, a copied object takes the place of the one that is freed after it,
and what is freed leaves. Moves and new sizes write nothing and keep the bindings. A
clearing stops as soon as the count of an array says that nothing is left; that this is
right is where the count of a sound array comes in (`log_freeChains`).
-/
import TwinTable.Proofs.Dictionary.Agreement

set_option autoImplicit false

namespace TwinTable

variable {κ ν : Type}

/-! ## Books -/

namespace Custody

def copiedKey? : Custody κ ν → Option κ
  | .keyCopied k => some k
  | .valueCopied _ | .keyFreed _ | .valueFreed _ => none

def copiedValue? : Custody κ ν → Option ν
  | .valueCopied v => some v
  | .keyCopied _ | .keyFreed _ | .valueFreed _ => none

def freedKey? : Custody κ ν → Option κ
  | .keyFreed k => some k
  | .keyCopied _ | .valueCopied _ | .valueFreed _ => none

def freedValue? : Custody κ ν → Option ν
  | .valueFreed v => some v
  | .keyCopied _ | .valueCopied _ | .keyFreed _ => none

end Custody

/-- What a binding owns: its key, and its value if that is an object. -/
def Binding.belongings (b : Binding κ ν) : κ × Option ν := (b.key, b.value.object?)

/-- A log and what is owned account for each other: whatever was copied is owned by
somebody or was freed. -/
structure Balanced (log : List (Custody κ ν)) (owned : Multiset (κ × Option ν)) : Prop where
  keys : (log.filterMap Custody.copiedKey? : Multiset κ) =
    owned.map Prod.fst + (log.filterMap Custody.freedKey? : Multiset κ)
  values : (log.filterMap Custody.copiedValue? : Multiset ν) =
    owned.filterMap Prod.snd + (log.filterMap Custody.freedValue? : Multiset ν)

namespace Balanced

variable {log events : List (Custody κ ν)} {owned owned' : Multiset (κ × Option ν)}

theorem nil : Balanced ([] : List (Custody κ ν)) 0 := ⟨rfl, rfl⟩

/-- Events keep the balance if what they copy comes to what is owned, and what they free
goes from it. -/
theorem append (h : Balanced log owned)
    (hkeys : owned.map Prod.fst + (events.filterMap Custody.copiedKey? : Multiset κ) =
      owned'.map Prod.fst + (events.filterMap Custody.freedKey? : Multiset κ))
    (hvalues : owned.filterMap Prod.snd + (events.filterMap Custody.copiedValue? : Multiset ν) =
      owned'.filterMap Prod.snd + (events.filterMap Custody.freedValue? : Multiset ν)) :
    Balanced (log ++ events) owned' := by
  refine ⟨?_, ?_⟩
  · rw [List.filterMap_append, List.filterMap_append, ← Multiset.coe_add, ← Multiset.coe_add,
      h.keys, add_right_comm, hkeys, add_right_comm, add_assoc]
  · rw [List.filterMap_append, List.filterMap_append, ← Multiset.coe_add, ← Multiset.coe_add,
      h.values, add_right_comm, hvalues, add_right_comm, add_assoc]

/-- A copied key is that of a blank binding. -/
theorem enter (h : Balanced log owned) (k : κ) :
    Balanced (log ++ [.keyCopied k]) ((k, none) ::ₘ owned) :=
  h.append (by simp [List.filterMap_cons, Custody.copiedKey?, Custody.freedKey?, add_comm])
    (by simp [List.filterMap_cons, Custody.copiedValue?, Custody.freedValue?])

/-- A copied object takes the place of the value that was there, which is freed. -/
theorem store {k : κ} {old : Value ν} (h : Balanced log ((k, old.object?) ::ₘ owned)) (v : ν) :
    Balanced (log ++ .valueCopied v :: old.freed) ((k, some v) ::ₘ owned) := by
  refine h.append ?_ ?_
  · cases old <;> simp [Value.freed, List.filterMap_cons, Custody.copiedKey?, Custody.freedKey?]
  · cases old <;> simp [Value.freed, Value.object?, List.filterMap_cons, Custody.copiedValue?,
      Custody.freedValue?, Multiset.cons_swap, add_comm]

/-- A freed binding is not owned any more. -/
theorem release {b : Binding κ ν} (h : Balanced log (b.belongings ::ₘ owned)) :
    Balanced (log ++ b.freed) owned := by
  obtain ⟨id, k, value⟩ := b
  refine h.append ?_ ?_
  · cases value <;> simp [Binding.freed, Binding.belongings, Value.freed, List.filterMap_cons,
      Custody.copiedKey?, Custody.freedKey?, add_comm]
  · cases value <;> simp [Binding.freed, Binding.belongings, Value.freed, Value.object?,
      List.filterMap_cons, Custody.copiedValue?, Custody.freedValue?, add_comm]

theorem releaseAll : ∀ (bs : List (Binding κ ν)) {log : List (Custody κ ν)},
    Balanced log ((bs.map Binding.belongings : Multiset (κ × Option ν)) + owned) →
      Balanced (log ++ bs.flatMap Binding.freed) owned := by
  intro bs
  induction bs with
  | nil =>
    intro log h
    simpa using h
  | cons b bs ih =>
    intro log h
    rw [List.flatMap_cons, ← List.append_assoc]
    refine ih (Balanced.release ?_)
    rwa [List.map_cons, ← Multiset.cons_coe, Multiset.cons_add] at h

end Balanced

namespace Dictionary

variable {d d' : Dictionary κ ν}

/-! ## What is written to the log -/

/-- The events of custody so far. -/
def log (d : Dictionary κ ν) : List (Custody κ ν) := d.outbox.custody.toList

theorem log_hand (d : Dictionary κ ν) (c : Custody κ ν) : (d.hand c).log = d.log ++ [c] :=
  Array.toList_push

theorem log_handAll (cs : List (Custody κ ν)) : ∀ d : Dictionary κ ν,
    (d.handAll cs).log = d.log ++ cs := by
  induction cs with
  | nil => intro d; exact (List.append_nil _).symm
  | cons c cs ih => intro d; rw [handAll_cons, ih, log_hand, List.append_assoc]; rfl

theorem log_modifySide (d : Dictionary κ ν) (s : Side) (f : Buckets κ ν → Buckets κ ν) :
    (d.modifySide s f).log = d.log := by
  cases s <;> rfl

theorem log_setAt (d : Dictionary κ ν) (p : Place) (f : Value ν → Value ν) :
    (d.setAt p f).log = d.log := log_modifySide d p.side _

theorem log_store (r : Rules κ ν) (d : Dictionary κ ν) (p : Place) (v : ν) :
    (d.store r p v).log = d.log ++ [.valueCopied (r.keying.copyValue v)] := by
  rw [store, log_setAt, log_hand]

variable (r : Rules κ ν)

/-- Moving entries, looking for them and making room for them copies nothing and frees
nothing. -/
theorem steady_log (log : List (Custody κ ν)) : Steady r fun d => d.log = log where
  migrate n h := by
    rw [← h, migrate]
    split
    · rfl
    · dsimp only
      split
      · rfl
      · rw [land]
        split <;> rfl
  expand size h := by
    rw [← h, expand]
    split_ifs <;> rfl
  note _ h := h

theorem log_endWalk (d : Dictionary κ ν) (w : Walk) : (d.endWalk w).2.log = d.log := by
  rw [endWalk]
  split_ifs <;> rfl

theorem log_reviseBuckets {τ : Type} (f : τ → κ → Value ν → Value ν × τ)
    (buckets : List Cursor.Bucket) : ∀ (before : List (List (Binding κ ν))) (s : τ)
      (d : Dictionary κ ν), (reviseBuckets f before buckets s d).2.2.log = d.log := by
  induction buckets with
  | nil => intro before s d; rfl
  | cons b buckets ih =>
    intro before s d
    rw [reviseBuckets]
    exact (ih _ _ _).trans (log_modifySide d b.1 _)

/-! A clearing stops when nothing is left by the count, and then nothing is left. -/

/-- **Chains are freed to the end** if there are as many bindings in them as the count
says. -/
theorem log_freeChains (chains : List (List (Binding κ ν))) :
    ∀ (i remaining turns : Nat) (d : Dictionary κ ν), remaining = chains.flatten.length →
      (d.freeChains chains i remaining turns).2.log =
        d.log ++ chains.flatten.flatMap Binding.freed := by
  induction chains with
  | nil => intro i remaining turns d _; exact (List.append_nil _).symm
  | cons chain chains ih =>
    intro i remaining turns d hcount
    rw [freeChains]
    split
    · rename_i hzero
      -- the count stands at zero only where all chains to come are empty
      rw [List.eq_nil_of_length_eq_zero (hcount.symm.trans hzero)]
      exact (List.append_nil _).symm
    · rw [List.flatten_cons, List.length_append] at hcount
      dsimp only
      rw [ih _ _ _ _ (by omega), log_handAll, List.flatten_cons, List.flatMap_append,
        List.append_assoc]

theorem log_clearSide {s : Side} (hs : (d.side s).Sound) :
    (d.clearSide s).2.log = d.log ++ (d.side s).toList.flatMap Binding.freed := by
  have hcleared : ∀ number, ((d.modifySide s fun _ => .unallocated).note
      (.clearing number (d.side s).size (d.side s).used)).log = d.log := fun number =>
    log_modifySide d s _
  unfold clearSide
  dsimp only
  rw [log_freeChains _ _ _ _ _ hs.counted, hcleared]
  rfl

theorem log_clear (hd : d.Shape) :
    d.clear.2.log = d.log ++ d.toList.flatMap Binding.freed := by
  have htarget : (d.clearSide .main).2.side .target = d.target := by
    obtain ⟨o, ho⟩ := d.clearSide_eq .main
    rw [ho]
    rfl
  have hsound : ((d.clearSide .main).2.side .target).Sound := htarget ▸ hd.target
  change ((d.clearSide .main).2.clearSide .target).2.log = _
  rw [log_clearSide hsound, log_clearSide (hd.side .main), htarget, toList, List.flatMap_append,
    List.append_assoc]
  rfl

/-! ## Dictionaries whose books balance -/

/-- What the bindings of a dictionary own. -/
def belongings (d : Dictionary κ ν) : Multiset (κ × Option ν) := d.toList.map Binding.belongings

/-- What was copied and not freed is owned by the bindings of the dictionary and by those
that were handed out. -/
def Accounts (d : Dictionary κ ν) (held : Multiset (Binding κ ν)) : Prop :=
  Balanced d.log (d.belongings + held.map Binding.belongings)

variable {r : Rules κ ν} {held : Multiset (Binding κ ν)} {p : Place} {b : Binding κ ν}

theorem belongings_of_perm (h : d'.toList.Perm d.toList) : d'.belongings = d.belongings :=
  Multiset.coe_eq_coe.mpr (h.map _)

/-- The belongings of one binding among the others. -/
theorem belongings_of_cons {bs : List (Binding κ ν)} (h : d.toList.Perm (b :: bs)) :
    d.belongings = b.belongings ::ₘ (bs.map Binding.belongings : Multiset (κ × Option ν)) :=
  Multiset.coe_eq_coe.mpr (h.map _)

/-- What neither writes to the log nor changes who owns what. -/
theorem Accounts.congr (h : d.Accounts held) (hlog : d'.log = d.log)
    (hsame : d'.belongings = d.belongings) : d'.Accounts held := by
  rw [Accounts, hlog, hsame]
  exact h

theorem Accounts.of_shifts (hd : d.Shape) (h : d.Accounts held)
    (hshifts : Shifts r.hash d d') (hlog : d'.log = d.log) : d'.Accounts held :=
  h.congr hlog (belongings_of_perm (hshifts.toList_perm hd).1)

/-- The machinery writes nothing to the log and keeps the bindings. -/
theorem steady_accounts (r : Rules κ ν) (held : Multiset (Binding κ ν)) :
    Steady r fun d => d.Shape ∧ d.Accounts held := by
  have hkept : ∀ {d d' : Dictionary κ ν}, Shifts r.hash d d' → d'.log = d.log →
      d.Shape ∧ d.Accounts held → d'.Shape ∧ d'.Accounts held :=
    fun hshifts hlog h => ⟨h.1.shifts hshifts, h.2.of_shifts h.1 hshifts hlog⟩
  refine ⟨⟨?_, ?_⟩, ?_⟩
  · intro d n h
    exact hkept (shifts_migrate r h.1 n) ((steady_log r d.log).migrate n rfl) h
  · intro d n h
    exact hkept (shifts_note d n) rfl h
  · intro d size h
    exact hkept (shifts_expand d size) ((steady_log r d.log).expand size rfl) h

/-- The binding at a place among the others, before and after its value is set. -/
theorem exists_perm_setAt (hd : d.Shape) (h : d.entry? p = some b) (f : Value ν → Value ν) :
    ∃ bs, d.toList.Perm (b :: bs) ∧
      (d.setAt p f).toList.Perm ({ b with value := f b.value } :: bs) := by
  have hid := (mem_of_entryAt h).2
  have hperm := toList_erase h
  refine ⟨_, hperm, ?_⟩
  have hother : ∀ x ∈ (d.modifySide p.side fun t => t.erase p.index p.id).toList,
      x.id ≠ p.id := by
    intro x hx he
    have hnodup := ((hperm.map (·.id)).nodup_iff).mp hd.handles
    have hsame : x.id = b.id := he.trans hid.symm
    exact (List.nodup_cons.mp hnodup).1 (List.mem_map.mpr ⟨x, hx, hsame⟩)
  rw [toList_setAt hd h]
  refine (hperm.map _).trans (List.Perm.of_eq ?_)
  rw [List.map_cons, if_pos hid]
  refine congrArg _ ((List.map_congr_left (g := id) ?_).trans (List.map_id _))
  intro x hx
  exact if_neg (hother x hx)

theorem belongings_setAt (hd : d.Shape) (h : d.entry? p = some b) {f : Value ν → Value ν}
    (hf : ∀ v, (f v).object? = v.object?) : (d.setAt p f).belongings = d.belongings := by
  obtain ⟨bs, hbefore, hafter⟩ := exists_perm_setAt hd h f
  rw [belongings_of_cons hafter, belongings_of_cons hbefore, Binding.belongings,
    Binding.belongings, hf]

/-- An object is stored in the place of a value that is freed. -/
theorem Accounts.store (hd : d.Shape) (h : d.Accounts held) (hp : d.entry? p = some b) (v : ν) :
    ((d.store r p v).handAll b.value.freed).Accounts held := by
  have hhanded : Shifts r.hash d (d.hand (.valueCopied (r.keying.copyValue v))) := shifts_hand d _
  have hhand := hd.shifts hhanded
  have hp' : Dictionary.entry? (d.hand (.valueCopied (r.keying.copyValue v))) p = some b := by
    unfold entry?
    rw [side_hand]
    exact hp
  obtain ⟨bs, hbefore, hafter⟩ :=
    exists_perm_setAt hhand hp' fun _ => .object (r.keying.copyValue v)
  have hold : d.belongings =
      (b.key, b.value.object?) ::ₘ (bs.map Binding.belongings : Multiset (κ × Option ν)) :=
    belongings_of_cons hbefore
  have hnew : ((d.store r p v).handAll b.value.freed).belongings =
      (b.key, some (r.keying.copyValue v)) ::ₘ
        (bs.map Binding.belongings : Multiset (κ × Option ν)) := by
    obtain ⟨o, ho⟩ := exists_outbox_handAll b.value.freed (d.store r p v)
    rw [ho]
    exact belongings_of_cons hafter
  rw [Accounts, hold, Multiset.cons_add] at h
  rw [Accounts, hnew, log_handAll, log_store, List.append_assoc, Multiset.cons_add]
  exact h.store _

/-- What a claim leaves: room for the entry at its place, which holds no object if it is a
fresh one. -/
theorem Accounts.claim (hd : d.Shape) (h : d.Accounts held) (k : κ) :
    (d.claim r k).2.Accounts held ∧
      ∃ b, Dictionary.entry? (d.claim r k).2 (d.claim r k).1.place = some b ∧
        ((d.claim r k).1.isFresh = true → b.value = .blank) := by
  obtain ⟨hshifts, hroom⟩ := shifts_ready (r := r) hd
  have hshape := hd.shifts hshifts
  have hP := steady_accounts r held
  have hready := (hP.growIfNeeded (hP.migrateStep ⟨hd, h⟩)).2
  rw [Dictionary.claim]
  dsimp only
  split
  · rename_i p hfound
    obtain ⟨b, hb⟩ := exists_entry?_of_lookup r hfound
    exact ⟨hready, b, hb, fun hfresh => absurd hfresh (by simp [Claim.isFresh])⟩
  · refine ⟨?_, _, entry?_link r hshape k hroom, fun _ => rfl⟩
    have hlinked := belongings_of_cons (toList_link r hshape k (r.hash k) hroom)
    rw [Accounts, hlinked, Multiset.cons_add, link_eq, log_modifySide, log_hand]
    exact Balanced.enter hready (r.keying.copyKey k)

/-- A claim that finds its key writes nothing to the log. -/
theorem log_claim_of_taken {k : κ} (h : (d.claim r k).1.isFresh = false) :
    (d.claim r k).2.log = d.log := by
  rw [Dictionary.claim] at h ⊢
  dsimp only at h ⊢
  split at h
  · have hP := steady_log r d.log
    exact hP.growIfNeeded (hP.migrateStep rfl)
  · exact absurd h (by simp [Claim.isFresh])

theorem Accounts.add (hd : d.Shape) (h : d.Accounts held) (k : κ) (v : ν) :
    (d.add r k v).2.Accounts held := by
  have hshape := hd.changes (changes_claim (r := r) hd k)
  obtain ⟨hclaim, b, hb, hblank⟩ := h.claim (r := r) hd k
  rw [Dictionary.add]
  revert hshape hclaim hb hblank
  rcases d.claim r k with ⟨p | p, d'⟩
  · intro hshape hclaim hb hblank
    have hstore := Accounts.store (r := r) hshape hclaim hb v
    -- a blank value is a number, and freeing it is no event
    rwa [hblank rfl] at hstore
  · intro _ hclaim _ _
    exact hclaim

/-- **A refused addition copies nothing** and frees nothing. -/
theorem log_add_of_keyExists {k : κ} {v : ν} (h : (d.add r k v).1 = .error .keyExists) :
    (d.add r k v).2.log = d.log := by
  have htaken := log_claim_of_taken (r := r) (d := d) (k := k)
  rw [Dictionary.add] at h ⊢
  revert h htaken
  rcases d.claim r k with ⟨p | p, d'⟩
  · intro h _
    exact absurd h (by simp)
  · intro _ htaken
    exact htaken rfl

theorem Accounts.replace (hd : d.Shape) (h : d.Accounts held) (k : κ) (v : ν) :
    (d.replace r k v).2.Accounts held := by
  have hshape := hd.changes (changes_claim (r := r) hd k)
  obtain ⟨hclaim, b, hb, hblank⟩ := h.claim (r := r) hd k
  rw [Dictionary.replace]
  revert hshape hclaim hb hblank
  rcases d.claim r k with ⟨p | p, d'⟩
  · intro hshape hclaim hb hblank
    have hstore := Accounts.store (r := r) hshape hclaim hb v
    rwa [hblank rfl] at hstore
  · intro hshape hclaim hb _
    have hstore := Accounts.store (r := r) hshape hclaim hb v
    dsimp only [Claim.place] at hb ⊢
    rw [hb]
    exact hstore

/-- A binding that is handed out takes with it what it owns. -/
theorem Accounts.unlink (hd : d.Shape) (h : d.Accounts held) (k : κ) :
    (d.unlink r k).2.Accounts (held + ((d.unlink r k).1.toList : Multiset (Binding κ ν))) := by
  have hfind := ((steady_accounts r held).find k ⟨hd, h⟩).2
  rcases unlink_cases (r := r) d k with hu | ⟨p, b, hb, hu⟩
  · rw [hu]
    simpa using hfind
  · have howned := belongings_of_cons (toList_erase hb)
    rw [Accounts, howned] at hfind
    rw [hu, Accounts, log_modifySide]
    refine Eq.mp (congrArg _ ?_) hfind
    change b.belongings ::ₘ belongings _ + _ = _
    simp [add_assoc, add_comm]

/-- A binding that is taken back is freed. -/
theorem Accounts.discard (h : d.Accounts (b ::ₘ held)) : (d.discard b).Accounts held := by
  have hsame : (d.discard b).belongings = d.belongings := by
    obtain ⟨o, ho⟩ := exists_outbox_handAll b.freed d
    rw [Dictionary.discard, ho]
    rfl
  rw [Accounts, Multiset.map_cons, Multiset.add_cons] at h
  rw [Accounts, hsame, Dictionary.discard, log_handAll]
  exact h.release

theorem Accounts.delete (hd : d.Shape) (h : d.Accounts held) (k : κ) :
    (d.delete r k).2.Accounts held := by
  have hunlink := h.unlink (r := r) hd k
  rw [Dictionary.delete]
  revert hunlink
  rcases d.unlink r k with ⟨_ | b, d'⟩
  · intro hunlink
    simpa using hunlink
  · intro hunlink
    refine Accounts.discard ?_
    rw [← Multiset.singleton_add, add_comm]
    exact hunlink

/-- **A clearing frees what the dictionary owns**, and nothing of what was handed out. -/
theorem Accounts.clear (hd : d.Shape) (h : d.Accounts held) : d.clear.2.Accounts held := by
  have hnone : d.clear.2.belongings = 0 := by rw [belongings, toList_clear]; rfl
  rw [Accounts, hnone, zero_add, log_clear hd]
  exact Balanced.releaseAll d.toList h

/-- What a dictionary does when it goes away. -/
theorem exists_drop_eq (d : Dictionary κ ν) :
    ∃ d' : Dictionary κ ν, d.drop = d'.clear.2 ∧ d'.toList = d.toList ∧ d'.log = d.log ∧
      (d.Shape → d'.Shape) := by
  have hnote : ∀ n, Shifts (fun _ => 0) d (d.note n) := shifts_note d
  rw [drop]
  split
  · exact ⟨_, rfl, rfl, rfl, fun hd => hd.shifts (hnote _)⟩
  · exact ⟨d, rfl, rfl, rfl, id⟩

theorem toList_drop (d : Dictionary κ ν) : d.drop.toList = [] := by
  obtain ⟨d', hd', -⟩ := d.exists_drop_eq
  rw [hd', toList_clear]

theorem Accounts.drop (hd : d.Shape) (h : d.Accounts held) : d.drop.Accounts held := by
  obtain ⟨d', hdrop, hlist, hlog, hshape⟩ := d.exists_drop_eq
  rw [hdrop]
  exact Accounts.clear (hshape hd) (h.congr hlog (belongings_of_perm (.of_eq hlist)))

/-! Keys and objects apart. -/

def copiedKeys (d : Dictionary κ ν) : Multiset κ := d.log.filterMap Custody.copiedKey?

def freedKeys (d : Dictionary κ ν) : Multiset κ := d.log.filterMap Custody.freedKey?

def copiedValues (d : Dictionary κ ν) : Multiset ν := d.log.filterMap Custody.copiedValue?

def freedValues (d : Dictionary κ ν) : Multiset ν := d.log.filterMap Custody.freedValue?

theorem Accounts.totals (h : d.Accounts held) :
    d.copiedKeys = (d.toList.map (·.key) : Multiset κ) + held.map (·.key) + d.freedKeys ∧
      d.copiedValues = (d.toList.filterMap (·.value.object?) : Multiset ν) +
        held.filterMap (·.value.object?) + d.freedValues := by
  obtain ⟨hkeys, hvalues⟩ := h
  refine ⟨hkeys.trans ?_, hvalues.trans ?_⟩
  · rw [Multiset.map_add, Multiset.map_map, belongings, Multiset.map_coe, List.map_map]
    rfl
  · rw [Multiset.filterMap_add, Multiset.filterMap_map, belongings, Multiset.filterMap_coe,
      List.filterMap_map]
    rfl

theorem belongings_reviseChain {τ : Type} {f : τ → κ → Value ν → Value ν × τ}
    (hf : ∀ s k v, (f s k v).1.object? = v.object?) (c : List (Binding κ ν)) : ∀ s : τ,
      (reviseChain f s c).1.map Binding.belongings = c.map Binding.belongings := by
  induction c with
  | nil => intro s; rfl
  | cons b c ih =>
    intro s
    rw [reviseChain, List.map_cons, List.map_cons, ih, Binding.belongings, Binding.belongings, hf]

theorem belongings_reviseBuckets {τ : Type} {f : τ → κ → Value ν → Value ν × τ}
    (hf : ∀ s k v, (f s k v).1.object? = v.object?) (buckets : List Cursor.Bucket) :
    ∀ (before : List (List (Binding κ ν))) (s : τ) (d : Dictionary κ ν),
      (reviseBuckets f before buckets s d).2.2.belongings = d.belongings := by
  induction buckets with
  | nil => intro before s d; rfl
  | cons bucket buckets ih =>
    intro before s d
    have hnil : d.chainAt bucket = [] → (reviseChain f s (d.chainAt bucket)).1 = [] := by
      intro hc
      rw [hc]
      rfl
    obtain ⟨front, back, hl, hl'⟩ := exists_split_any (d := d)
      (f := fun _ => (reviseChain f s (d.chainAt bucket)).1) hnil
    rw [reviseBuckets]
    refine (ih _ _ _).trans ?_
    rw [belongings, belongings, hl', hl]
    simp only [List.map_append, belongings_reviseChain hf]
    rfl

end Dictionary

/-! ## Courses of operations -/

/-- Whether an operation writes objects to entries only by adding or replacing, and neither
hands out bindings nor takes them back. -/
def Operation.KeepsObjects : Operation κ ν → Prop
  | .claim _ set => ∀ fresh v, (set fresh v).object? = v.object?
  | .find _ set => ∀ v, (set v).object? = v.object?
  | .scanRevising f _ _ => ∀ s k v, (f s k v).1.object? = v.object?
  | .unlink _ | .discard _ => False
  | _ => True

namespace Situation

variable {σ : Type} (K : Keying κ ν) (g : WordSource σ)

open Dictionary

/-- What a new dictionary may come to, and the bindings that were handed out by then and not
taken back. Only such a binding may be given to `discard`, and only once. -/
inductive Course (settings : Settings) (words : σ) :
    Situation κ ν σ → Multiset (Binding κ ν) → Prop
  | start : Course settings words (start settings words) 0
  | perform {s : Situation κ ν σ} {held : Multiset (Binding κ ν)} (op : Operation κ ν)
      (earlier : Course settings words s held) (keeps : op.KeepsObjects) :
      Course settings words (s.perform K g op).2 held
  | unlink {s : Situation κ ν σ} {held : Multiset (Binding κ ν)} (k : κ)
      (earlier : Course settings words s held) :
      Course settings words (s.perform K g (.unlink k)).2
        (held + ((s.dictionary.unlink (s.rules K) k).1.toList : Multiset (Binding κ ν)))
  | discard {s : Situation κ ν σ} {held : Multiset (Binding κ ν)} {b : Binding κ ν}
      (earlier : Course settings words s (b ::ₘ held)) :
      Course settings words (s.perform K g (.discard b)).2 held

variable {K g} {held : Multiset (Binding κ ν)}

/-- **Each operation keeps the balance.** -/
theorem accounts_perform {s : Situation κ ν σ} (hs : s.dictionary.Shape)
    (h : s.dictionary.Accounts held) {op : Operation κ ν} (hop : op.KeepsObjects) :
    (s.perform K g op).2.dictionary.Accounts held := by
  have hP := steady_accounts (s.rules K) held
  cases op with
  | add k v => exact h.add (r := s.rules K) hs k v
  | claim k set =>
    obtain ⟨hclaim, b, hb, -⟩ := h.claim (r := s.rules K) hs k
    have hshape := hs.changes (changes_claim (r := s.rules K) hs k)
    exact hclaim.congr (log_setAt _ _ _) (belongings_setAt hshape hb (hop _))
  | replace k v => exact h.replace (r := s.rules K) hs k v
  | find k set =>
    have hfound : ∀ p, (s.dictionary.find (s.rules K) k).1 = some p →
        ∃ b, Dictionary.entry? (s.dictionary.find (s.rules K) k).2 p = some b :=
      fun p => exists_entry?_of_find
    have hfind := hP.find k ⟨hs, h⟩
    rw [perform]
    revert hfound hfind
    rcases s.dictionary.find (s.rules K) k with ⟨_ | p, d⟩
    · intro _ hfind
      exact hfind.2
    · rintro hfound ⟨hshape, hfind⟩
      obtain ⟨b, hb⟩ := hfound p rfl
      exact hfind.congr (log_setAt _ _ _) (belongings_setAt hshape hb hop)
  | unlink k => exact absurd hop id
  | delete k => exact h.delete (r := s.rules K) hs k
  | discard b => exact absurd hop id
  | clear => exact h.clear hs
  | expand size => exact (hP.expand size ⟨hs, h⟩).2
  | resizeTo size => exact (hP.resizeTo size ⟨hs, h⟩).2
  | shrinkToFit => exact (hP.resizeTo _ ⟨hs, h⟩).2
  | migrate n => exact (hP.migrate n ⟨hs, h⟩).2
  | migrateFor rounds => exact (hP.migrateFor rounds ⟨hs, h⟩).2
  | allowResizing allowed => exact h.congr rfl rfl
  | pick => exact (hP.pick g s.words ⟨hs, h⟩).2
  | pickFairly => exact (hP.pickFairly g s.words ⟨hs, h⟩).2
  | sample count => exact (hP.sample g count s.words ⟨hs, h⟩).2
  | scan cursor => exact h
  | scanRevising f start cursor =>
    exact h.congr (log_reviseBuckets f _ _ _ _) (belongings_reviseBuckets hop _ _ _ _)
  | walk => exact h
  | safeWalk => exact h.congr rfl rfl
  | advance w => exact h
  | endWalk w =>
    exact h.of_shifts (r := s.rules K) hs (shifts_endWalk _ w) (log_endWalk _ w)

/-- The books balance all along a course. -/
theorem Course.accounts {settings : Settings} {words : σ} {s : Situation κ ν σ}
    (h : Course K g settings words s held) :
    s.dictionary.Shape ∧ s.dictionary.Accounts held := by
  -- induction on the course; that the layout is sound is kept along with the balance
  induction h with
  | start => exact ⟨shape_empty, Balanced.nil⟩
  | perform op _ keeps ih =>
    exact ⟨ih.1.changes (changes_perform K g ih.1 op), accounts_perform ih.1 ih.2 keeps⟩
  | unlink k _ ih =>
    exact ⟨ih.1.changes (changes_perform K g ih.1 (.unlink k)), ih.2.unlink ih.1 k⟩
  | @discard s _ b _ ih =>
    exact ⟨ih.1.changes (changes_perform K g ih.1 (.discard b)), ih.2.discard⟩

/-- **Every copy is owned once and freed once.** Whatever a dictionary went through, the keys
that were copied are those of its entries, those of the bindings that were handed out and
not taken back, and those that were freed, each as often as it was copied; and so are the
objects. A refused addition writes nothing to the log. When the dictionary goes away, only
what was handed out is left. -/
theorem Course.owned_once {settings : Settings} {words : σ} {s : Situation κ ν σ}
    (h : Course K g settings words s held) :
    let d := s.dictionary
    d.copiedKeys = (d.toList.map (·.key) : Multiset κ) + held.map (·.key) + d.freedKeys ∧
      d.copiedValues = (d.toList.filterMap (·.value.object?) : Multiset ν) +
        held.filterMap (·.value.object?) + d.freedValues ∧
      (∀ k v, (d.add (s.rules K) k v).1 = .error .keyExists →
        (d.add (s.rules K) k v).2.log = d.log) ∧
      d.drop.copiedKeys = held.map (·.key) + d.drop.freedKeys ∧
      d.drop.copiedValues = held.filterMap (·.value.object?) + d.drop.freedValues := by
  intro d
  obtain ⟨hshape, haccounts⟩ := h.accounts
  obtain ⟨hkeys, hvalues⟩ := haccounts.totals
  obtain ⟨hkeys', hvalues'⟩ := (haccounts.drop hshape).totals
  rw [toList_drop] at hkeys' hvalues'
  refine ⟨hkeys, hvalues, fun k v => log_add_of_keyExists, ?_, ?_⟩
  · simpa using hkeys'
  · simpa using hvalues'

/-- A key whose object was replaced and that was then unlinked, with what is left of it when
the dictionary goes away. -/
theorem owned_once_of_one_key :
    let s := (start .standard 0).after (Keying.numbers String) WordSource.splitMix
      [.add 1 "one", .replace 1 "uno", .unlink 1]
    Course (Keying.numbers String) WordSource.splitMix .standard 0 s {⟨0, 1, .object "uno"⟩} ∧
      s.dictionary.drop.copiedKeys = {1} + s.dictionary.drop.freedKeys ∧
      s.dictionary.drop.copiedValues = {"uno"} + s.dictionary.drop.freedValues := by
  intro s
  have hcourse : Course (Keying.numbers String) WordSource.splitMix .standard 0 s
      {⟨0, 1, .object "uno"⟩} :=
    .unlink 1 (.perform (.replace 1 "uno") (.perform (.add 1 "one") .start trivial) trivial)
  obtain ⟨-, -, -, hkeys, hvalues⟩ := hcourse.owned_once
  exact ⟨hcourse, hkeys, hvalues⟩

end Situation

end TwinTable
