/-
Scans with bucket functions, link by link.

Here a bucket is what it is to the caller: a head and a slab. To be asked for its length is to
follow the links and count; to be asked whether it is empty is to look at the head; a pass
follows the links and writes to each entry as it comes to it, before it reads from there where
to go on; and the visits after that follow the links once more. What happens is taken down in
the order in which it happens (`ScanStep`).

The heads are not written to at all, and the entries in their values only, so that the chain at
hand and those still to come are led through as before (`Slab.Leads.handle`). In this way the
scan on links fails nowhere, and its steps are the turns of the scan on lists, one after the
other (`Represents.handBuckets`).
-/
import TwinTable.Proofs.Dictionary.BucketFunctions
import TwinTable.Proofs.Dictionary.LinkedInvariant

set_option autoImplicit false

namespace TwinTable

variable {κ ν τ : Type}

/-- One thing that happens in a scan with a bucket function. -/
inductive ScanStep (κ ν : Type) where
  /-- A bucket is handed over. -/
  | handed (b : Cursor.Bucket)
  | called (call : Call κ ν)
  | visited (b : Binding κ ν)
deriving DecidableEq

/-- What happens in a turn: the bucket is handed over, then handled, then visited. -/
def BucketTurn.steps (turn : BucketTurn κ ν) : List (ScanStep κ ν) :=
  .handed turn.bucket :: (turn.calls.map .called ++ turn.visits.map .visited)

/-! ## A bucket -/

namespace Slab

/-- A revising function that keeps a record of what it comes to. -/
def recording (f : τ → κ → Value ν → Value ν × τ) (s : List (κ × Value ν) × τ) (k : κ)
    (v : Value ν) : Value ν × (List (κ × Value ν) × τ) :=
  ((f s.2 k v).1, s.1 ++ [(k, v)], (f s.2 k v).2)

/-- Handles the bucket with a given head. -/
def handle (fuel : Nat) (head : Option Nat) :
    Handling κ ν τ → Slab κ ν → Option (List (Call κ ν) × τ × Slab κ ν)
  | .done s, slab => some ([], s, slab)
  | .askLength next, slab => do
    let chain ← slab.gather fuel head
    let (calls, s, slab) ← handle fuel head (next chain.length) slab
    return (.length chain.length :: calls, s, slab)
  | .askEmpty next, slab => do
    let (calls, s, slab) ← handle fuel head (next head.isNone) slab
    return (.empty head.isNone :: calls, s, slab)
  | .forEach f s next, slab => do
    let ((reached, s), slab) ← reviseFrom (recording f) fuel head ([], s) slab
    let (calls, s, slab) ← handle fuel head (next s) slab
    return (.forEach reached :: calls, s, slab)

/-- Keeping a record changes nothing else, and it is a record of the chain as it was. -/
theorem reviseChain_recording (f : τ → κ → Value ν → Value ν × τ) (c : List (Binding κ ν)) :
    ∀ (seen : List (κ × Value ν)) (s : τ),
      Dictionary.reviseChain (recording f) (seen, s) c =
        ((Dictionary.reviseChain f s c).1,
          seen ++ c.map Binding.pair, (Dictionary.reviseChain f s c).2) := by
  induction c with
  | nil =>
    intro seen s
    rw [List.map_nil, List.append_nil]
    rfl
  | cons b c ih =>
    intro seen s
    have hrest := ih (seen ++ [b.pair]) (f s b.key b.value).2
    rw [List.append_assoc] at hrest
    show ({ b with value := (f s b.key b.value).1 } ::
        (Dictionary.reviseChain (recording f) (seen ++ [b.pair], (f s b.key b.value).2) c).1,
      (Dictionary.reviseChain (recording f) (seen ++ [b.pair], (f s b.key b.value).2) c).2) = _
    rw [hrest]
    rfl

/-- The head tells whether there is an entry. -/
theorem Leads.isNone_eq {slab : Slab κ ν} {head : Option Nat} {c : List (Binding κ ν)}
    (h : Leads slab head c) : head.isNone = c.isEmpty := by
  rw [Bool.eq_iff_iff, Option.isNone_iff_eq_none, List.isEmpty_iff]
  exact h.eq_none_iff

/-- **Handling along the links** is handling the chain. The links lead through what is left of
it, and nothing else has changed. -/
theorem Leads.handle {fuel : Nat} {head : Option Nat} (h : Handling κ ν τ) :
    ∀ {slab : Slab κ ν} {c : List (Binding κ ν)}, Leads slab head c → c.length ≤ fuel →
      (c.map (·.id)).Nodup →
      ∃ slab', handle fuel head h slab = some ((h.run c).calls, (h.run c).state, slab') ∧
        Leads slab' head (h.run c).chain ∧ SameOff (c.map (·.id)) slab slab' := by
  -- induction on what is done; a pass leaves a chain with the same handles for the rest of it
  induction h with
  | done s => exact fun {slab _} hleads _ _ => ⟨slab, rfl, hleads, .refl _ _⟩
  | askLength next ih =>
    intro slab c hleads hfuel hnodup
    obtain ⟨slab', hrun, hleads', hsame⟩ := ih c.length hleads hfuel hnodup
    refine ⟨slab', ?_, hleads', hsame⟩
    unfold Slab.handle
    rw [hleads.gather hfuel]
    simp only [Option.bind_eq_bind, Option.bind_some, hrun]
    rfl
  | askEmpty next ih =>
    intro slab c hleads hfuel hnodup
    obtain ⟨slab', hrun, hleads', hsame⟩ := ih c.isEmpty hleads hfuel hnodup
    refine ⟨slab', ?_, hleads', hsame⟩
    unfold Slab.handle
    rw [hleads.isNone_eq]
    simp only [Option.bind_eq_bind, Option.bind_some, hrun]
    rfl
  | forEach f s next ih =>
    intro slab c hleads hfuel hnodup
    have hlabels := Dictionary.map_label_reviseChain f c s
    have hids := map_id_of_label hlabels
    have hlength := length_eq_of_label hlabels
    obtain ⟨slab₁, hpass, hleads₁, hsame₁⟩ :=
      hleads.reviseFrom (recording f) (s := ([], s)) hfuel hnodup
    rw [reviseChain_recording, List.nil_append] at hpass hleads₁
    obtain ⟨slab', hrun, hleads', hsame⟩ := ih (Dictionary.reviseChain f s c).2 hleads₁
      (hlength ▸ hfuel) (hids ▸ hnodup)
    refine ⟨slab', ?_, hleads', hsame₁.trans (hids ▸ hsame)⟩
    unfold Slab.handle
    rw [hpass]
    simp only [Option.bind_eq_bind, Option.bind_some, hrun]
    rfl

end Slab

/-! ## A scan -/

namespace Linked

def layout? (l : Linked κ ν) : Option Cursor.Layout :=
  if l.isEmpty then none
  else if !l.migrating then some (.single l.main.mask)
  else if l.main.size ≤ l.target.size then some (.double .main l.main.mask .target l.target.mask)
  else some (.double .target l.target.mask .main l.main.mask)

def cover (l : Linked κ ν) (cursor : UInt64) : List Cursor.Bucket × UInt64 :=
  match l.layout? with
  | none => ([], 0)
  | some layout => layout.cover cursor

/-- The entries of a bucket, found along the links. -/
def chainAt (l : Linked κ ν) (b : Cursor.Bucket) : Option (List (Binding κ ν)) :=
  l.slab.gather l.issued ((l.side b.1).head b.2)

def scan (l : Linked κ ν) (cursor : UInt64) : Option (List (Binding κ ν) × UInt64) := do
  let chains ← (l.cover cursor).1.mapM l.chainAt
  return (chains.flatten, (l.cover cursor).2)

def handBuckets (h : τ → Handling κ ν τ) (visit : τ → Binding κ ν → τ) :
    List Cursor.Bucket → τ → Linked κ ν → Option (List (ScanStep κ ν) × τ × Linked κ ν)
  | [], s, l => some ([], s, l)
  | b :: rest, s, l => do
    let (calls, s, slab) ← Slab.handle l.issued ((l.side b.1).head b.2) (h s) l.slab
    let l := { l with slab := slab }
    let visits ← l.chainAt b
    let (steps, s, l) ← handBuckets h visit rest (visits.foldl visit s) l
    return (.handed b :: (calls.map .called ++ visits.map .visited) ++ steps, s, l)

def scanBuckets (h : τ → Handling κ ν τ) (visit : τ → Binding κ ν → τ) (s : τ)
    (l : Linked κ ν) (cursor : UInt64) : Option ((List (ScanStep κ ν) × UInt64 × τ) × Linked κ ν) := do
  let (steps, s, l') ← l.handBuckets h visit (l.cover cursor).1 s
  return ((steps, (l.cover cursor).2, s), l')

variable {l l' : Linked κ ν} {d d' : Dictionary κ ν} {st : Settings}

theorem Represents.cover_eq (h : Represents st l d) (cursor : UInt64) :
    l.cover cursor = d.cover cursor := by
  have hlayout : l.layout? = d.layout? := by
    rw [Linked.layout?, Dictionary.layout?, h.isEmpty_eq, h.migrating_eq, h.main.mask,
      h.target.mask, h.main.size, h.target.size]
  cases hd : d.layout? <;> rw [Linked.cover, Dictionary.cover, hlayout, hd]

theorem Represents.chainAt_eq (h : Represents st l d) (hd : d.Shape) (b : Cursor.Bucket) :
    l.chainAt b = some (d.chainAt b) :=
  ((h.side b.1).leads b.2).gather (h.length_chain_le hd b.1 b.2)

/-- **A scan that only reads** fails nowhere on links, and is the one on lists. -/
theorem Represents.scan_eq (h : Represents st l d) (hd : d.Shape) (cursor : UInt64) :
    l.scan cursor = some (d.scan cursor) := by
  have hchains : (l.cover cursor).1.mapM l.chainAt = some ((d.cover cursor).1.map d.chainAt) := by
    have hread : l.chainAt = fun b => pure (d.chainAt b) := funext (h.chainAt_eq hd)
    rw [hread, h.cover_eq, List.mapM_pure]
    rfl
  rw [Linked.scan, hchains, h.cover_eq]
  rfl

/-- One bucket, handled where it is. -/
theorem Represents.handle (h : Handling κ ν τ) (hl : Represents st l d) (hd : d.Shape)
    (b : Cursor.Bucket) :
    ∃ slab, Slab.handle l.issued ((l.side b.1).head b.2) h l.slab =
        some ((h.run (d.chainAt b)).calls, (h.run (d.chainAt b)).state, slab) ∧
      Represents st { l with slab := slab } (d.setChain b (h.run (d.chainAt b)).chain) := by
  obtain ⟨slab, hrun, hleads, hsame⟩ := ((hl.side b.1).leads b.2).handle h
    (hl.length_chain_le hd b.1 b.2) (Buckets.nodup_chain (hd.nodup_side b.1) b.2)
  exact ⟨slab, hrun, hl.withChain hd b (h.map_label_run (d.chainAt b)) hleads hsame⟩

/-- **Bucket by bucket**: the steps on links are the turns on lists, and what is left represents
what is left there. -/
theorem Represents.handBuckets (r : Rules κ ν) (h : τ → Handling κ ν τ)
    (visit : τ → Binding κ ν → τ) (buckets : List Cursor.Bucket) : ∀ (s : τ) {l : Linked κ ν}
      {d : Dictionary κ ν}, Represents st l d → d.Shape →
      ∃ slab, l.handBuckets h visit buckets s =
          some ((d.handBuckets h visit buckets s).1.flatMap BucketTurn.steps,
            (d.handBuckets h visit buckets s).2.1, { l with slab := slab }) ∧
        Represents st { l with slab := slab } (d.handBuckets h visit buckets s).2.2 := by
  induction buckets with
  | nil => exact fun _ {l _} hl _ => ⟨l.slab, rfl, hl⟩
  | cons b buckets ih =>
    intro s l d hl hd
    obtain ⟨slab₁, hrun, hl₁⟩ := hl.handle (h s) hd b
    have hd₁ := hd.setChain r ((h s).map_label_run (d.chainAt b))
    rw [Linked.handBuckets, Dictionary.handBuckets, hrun]
    generalize (h s).run (d.chainAt b) = handled at hl₁ hd₁ ⊢
    generalize d.setChain b handled.chain = d₁ at hl₁ hd₁ ⊢
    obtain ⟨slab, hrest, hl₂⟩ := ih ((d₁.chainAt b).foldl visit handled.state) hl₁ hd₁
    refine ⟨slab, ?_, hl₂⟩
    simp only [Option.bind_eq_bind, Option.bind_some, hl₁.chainAt_eq hd₁ b, hrest]
    rfl

theorem Represents.scanBuckets (r : Rules κ ν) (h : τ → Handling κ ν τ)
    (visit : τ → Binding κ ν → τ) (s : τ) (hl : Represents st l d) (hd : d.Shape)
    (cursor : UInt64) :
    ∃ slab, l.scanBuckets h visit s cursor =
        some (((d.scanBuckets h visit s cursor).turns.flatMap BucketTurn.steps,
          (d.scanBuckets h visit s cursor).next, (d.scanBuckets h visit s cursor).state),
          { l with slab := slab }) ∧
      Represents st { l with slab := slab } (d.scanBuckets h visit s cursor).dictionary := by
  obtain ⟨slab, hrun, hl'⟩ := handBuckets r h visit (d.cover cursor).1 s hl hd
  refine ⟨slab, ?_, hl'⟩
  rw [Linked.scanBuckets, hl.cover_eq, hrun]
  rfl

end Linked

/-! ## What stays -/

namespace Slab

variable {slab slab' : Slab κ ν}

/-- The key of an entry and what it leads to. -/
def thread (slab : Slab κ ν) (id : Nat) : Option (κ × Option Nat) :=
  (slab id).map fun cell => (cell.key, cell.next)

/-- A slab later, when values have changed under some handles and nothing else has. -/
structure Rewritten (ids : List Nat) (slab slab' : Slab κ ν) : Prop where
  thread : ∀ id, slab'.thread id = slab.thread id
  off : ∀ id ∉ ids, slab' id = slab id

/-- Links that lead through the same labels are the same links. -/
theorem Leads.thread_eq {c : List (Binding κ ν)} : ∀ {c' : List (Binding κ ν)}
    {current current' : Option Nat}, Leads slab current c → Leads slab' current' c' →
      c'.map Binding.label = c.map Binding.label →
      ∀ b ∈ c, slab'.thread b.id = slab.thread b.id := by
  induction c with
  | nil => exact fun _ _ _ _ hb => absurd hb List.not_mem_nil
  | cons b c ih =>
    rintro c' current current' ⟨-, next, hcell, hrest⟩ h' hlabels x hx
    obtain ⟨b', c', rfl, hb, hc⟩ := List.map_eq_cons_iff.mp hlabels
    obtain ⟨-, next', hcell', hrest'⟩ := h'
    rcases List.mem_cons.mp hx with rfl | hx
    · obtain ⟨hid, hkey⟩ := Prod.mk.inj hb
      have hnext : next' = next := by
        have hheads := congrArg (fun labels => labels.head?.map Prod.fst) hc
        rw [List.head?_map, List.head?_map, Option.map_map, Option.map_map] at hheads
        rw [hrest'.current_eq, hrest.current_eq]
        exact hheads
      rw [Slab.thread, Slab.thread, hcell, ← hid, hcell']
      simp [hkey, hnext]
    · exact ih hrest hrest' hc x hx

end Slab

namespace Linked

variable {l l' : Linked κ ν} {d d' : Dictionary κ ν} {st : Settings}

/-- **The slab** keeps its entries, their keys and their links, and the values outside the
buckets. -/
theorem Represents.rewritten (h : Represents st l d) (h' : Represents st l' d')
    {buckets : List Cursor.Bucket} (hsame : d.SameBut buckets d') :
    Slab.Rewritten ((buckets.flatMap d.chainAt).map (·.id)) l.slab l'.slab := by
  have hhandles : d'.handles = d.handles :=
    Dictionary.id_toList (hsame.labels .main) (hsame.labels .target)
  -- an entry that is alive is in a bucket, and the links of that lead through the same labels
  have halive : ∀ id, (l'.slab id = none ∧ l.slab id = none) ∨
      ∃ b, ∃ x ∈ d.chainAt b, x.id = id ∧ l'.slab.thread id = l.slab.thread id := by
    intro id
    by_cases hid : id ∈ d.handles
    · obtain ⟨x, hx, rfl⟩ := List.mem_map.mp hid
      obtain ⟨s, i, hx⟩ := Dictionary.mem_toList.mp hx
      refine .inr ⟨(s, i), x, hx, rfl, ?_⟩
      exact ((h.side s).leads i).thread_eq ((h'.side s).leads i) ((hsame.labels s).chain i) x hx
    · exact .inl ⟨(h'.alive id).mpr (hhandles ▸ hid), (h.alive id).mpr hid⟩
  refine ⟨?_, ?_⟩
  · intro id
    rcases halive id with ⟨hnone', hnone⟩ | ⟨-, -, -, -, hthread⟩
    · rw [Slab.thread, Slab.thread, hnone', hnone]
    · exact hthread
  · intro id hid
    rcases halive id with ⟨hnone', hnone⟩ | ⟨b, x, hx, rfl, hthread⟩
    · rw [hnone', hnone]
    · have hb : b ∉ buckets := fun hb =>
        hid (List.mem_map_of_mem (List.mem_flatMap.mpr ⟨b, hb, hx⟩))
      have hx' : x ∈ d'.chainAt b := (hsame.outside b hb).symm ▸ hx
      obtain ⟨next, hcell⟩ := ((h.side b.1).leads b.2).exists_cell hx
      obtain ⟨next', hcell'⟩ := ((h'.side b.1).leads b.2).exists_cell hx'
      rw [Slab.thread, Slab.thread, hcell, hcell'] at hthread
      have hnext : next' = next := by simpa using hthread
      rw [hcell, hcell', hnext]

end Linked

namespace Situation

variable {σ : Type} (K : Keying κ ν) (g : WordSource σ)

open Dictionary

/-- **A scan with a bucket function refines one that only reads.** Take any dictionary that a new
one can come to, any bucket function and any cursor. Both scans come to the same cursor and to
the same entries in the same order, the one with a bucket function to the values that it left;
each bucket under the cursor has its turn, once, in which all calls are answered for the visits
that follow; and but for values in these buckets everything is as before.

On links neither scan fails. The one with a bucket function takes the steps of these turns one
after the other, and writes to nothing but the values of the entries in these buckets. The scan
that the dictionary runs is that of a single pass, and a history comes to every dictionary that
any bucket function leaves. -/
theorem bucket_functions_refine_scan (settings : Settings) (words : σ)
    (ops : List (Operation κ ν)) (h : τ → Handling κ ν τ) (visit : τ → Binding κ ν → τ) (s : τ)
    (cursor : UInt64) :
    let d := ((start settings words).after K g ops).dictionary
    let r := d.scanBuckets h visit s cursor
    r.Refines h d cursor ∧
      (∃ l slab, (Linked.start settings).after K ops = some l ∧
        l.scan cursor = some (d.scan cursor) ∧
        l.scanBuckets h visit s cursor =
          some ((r.turns.flatMap BucketTurn.steps, r.next, r.state), { l with slab := slab }) ∧
        Slab.Rewritten (((d.cover cursor).1.flatMap d.chainAt).map (·.id)) l.slab slab) ∧
      (∀ f : τ → κ → Value ν → Value ν × τ, d.scanRevising f s cursor =
        let r := d.scanBuckets (passing f) (fun s _ => s) s cursor
        (⟨r.turns.map (·.visits), r.next, r.state⟩, r.dictionary)) ∧
      ∃ op, ((start settings words).after K g (ops ++ [op])).dictionary = r.dictionary := by
  intro d r
  have hd : d.Shape := shape_after K g settings words ops
  obtain ⟨l, hl, hrep⟩ := Linked.Represents.after K g ops
    (s := start settings words) (Linked.represents_start settings) shape_empty
  obtain ⟨slab, hrun, hleft⟩ := hrep.scanBuckets
    (((start settings words).after K g ops).rules K) h visit s hd cursor
  have hrefines : r.Refines h d cursor := hd.refines_scan h visit s cursor
  have hrewritten := hrep.rewritten hleft hrefines.sameBut
  have hreached : ((start settings words).after K g
      (ops ++ [.scanRevising supply (r.visits.map (·.value)) cursor])).dictionary =
        r.dictionary := by
    rw [after, List.foldl_append]
    exact scanRevising_supply h visit s d cursor
  exact ⟨hrefines, ⟨l, slab, hl, hrep.scan_eq hd cursor, hrun, hrewritten⟩,
    fun f => scanRevising_eq f s d cursor, _, hreached⟩

/-- Three numbers in a bucket of the array of four, and the two buckets of the array of eight that
share its cursor. Each key is multiplied by the number of entries in its bucket. -/
example :
    let d := ((start .standard 0).after (Keying.numbers String) WordSource.splitMix
      [.add 0 "a", .add 4 "b", .add 8 "c", .add 1 "d", .add 2 "e"]).dictionary
    let r := d.scanBuckets (fun _ => .askLength fun n =>
      .forEach (fun n k _ => (.unsigned (k * n), n)) n.toUInt64 .done) (fun n _ => n) 0 0
    r.next = 2 ∧ r.turns.flatMap BucketTurn.steps =
      [.handed (.main, 0), .called (.length 3),
        .called (.forEach [(8, .object "c"), (4, .object "b"), (0, .object "a")]),
        .visited ⟨2, 8, .unsigned 24⟩, .visited ⟨1, 4, .unsigned 12⟩, .visited ⟨0, 0, .unsigned 0⟩,
        .handed (.target, 0), .called (.length 0), .called (.forEach []),
        .handed (.target, 4), .called (.length 0), .called (.forEach [])] := by
  decide +kernel

end Situation

end TwinTable
