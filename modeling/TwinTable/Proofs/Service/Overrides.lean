/-
What settings come to, and that their order does not matter.

`Options.takeAll` goes through a list of variables, changes one setting at a time and stops at
the first variable that cannot be taken. Here is what it comes to, without a loop. What a
variable gives to a setting depends on the variable alone (`endpointGiven?` and the like), and
so does whether it is refused (`Refused`). The variables before the first refused one are
taken, and of those that give a setting the last one counts (`Options.takeAll_of_taken`).

An environment has each name once. Then at most one variable gives each setting, and a list
with one element has one order (`latest_of_perm`). Whether some variable is refused is no
matter of order either, but which of them is met first is: a failure names one of them, and
what was taken before is in force.
-/
import Mathlib
import TwinTable.Service.Options

set_option autoImplicit false

namespace TwinTable.Service

/-! ## One variable -/

/-- Whether a name is that of a setting, known or not. -/
def IsSetting (name : String) : Prop := ∃ setting, name = "KEYSPACE_" ++ setting

/-- Where a variable tells the service to listen. -/
def endpointGiven? (v : String × String) : Option Endpoint :=
  if v.1 = "KEYSPACE_ADDR" then Endpoint.read? (Text.trim v.2) else none

/-- How often a variable tells the upkeep to run, which is not never. -/
def frequencyGiven? (v : String × String) : Option Nat :=
  if v.1 = "KEYSPACE_HZ" then
    (Text.Numeral.read? Text.Numeral.max32 (Text.trim v.2)).filter (· ≠ 0)
  else none

/-- For how long a variable tells the upkeep to run. -/
def patienceGiven? (v : String × String) : Option Nat :=
  if v.1 = "KEYSPACE_REHASH_MS" then
    Text.Numeral.read? Text.Numeral.max64 (Text.trim v.2)
  else none

/-- A variable that has the name of a setting and gives none: there is no such setting, or it
cannot have this value. -/
structure Refused (v : String × String) : Prop where
  isSetting : IsSetting v.1
  endpoint : endpointGiven? v = none
  frequency : frequencyGiven? v = none
  patience : patienceGiven? v = none

/-- What is wrong with a variable that is refused. The value is shown as it was read. -/
def faultOf (v : String × String) : OptionFault :=
  if v.1 = "KEYSPACE_ADDR" ∨ v.1 = "KEYSPACE_HZ" ∨ v.1 = "KEYSPACE_REHASH_MS" then
    .invalidValue v.1 (Text.trim v.2)
  else
    .unknownKey v.1

namespace Options

/-- The marker is cut off the name of a setting, and off no other name. -/
theorem settingName?_eq_some {name setting : String} :
    settingName? name = some setting ↔ name = "KEYSPACE_" ++ setting := by
  rw [settingName?]
  constructor
  · intro h
    split at h
    · rename_i hmarked
      obtain ⟨rest, hrest⟩ := List.isPrefixOf_iff_prefix.mp hmarked
      rw [← Option.some.inj h, ← String.toList_inj, String.toList_append, ← hrest, List.drop_left]
      exact congrArg (marker ++ ·) String.toList_ofList.symm
    · exact absurd h (by simp)
  · rintro rfl
    have hmarked : marker.isPrefixOf ("KEYSPACE_" ++ setting).toList = true := by
      rw [String.toList_append]
      exact List.isPrefixOf_iff_prefix.mpr (List.prefix_append _ _)
    rw [if_pos hmarked, String.toList_append]
    have hrest : ("KEYSPACE_".toList ++ setting.toList).drop marker.length = setting.toList :=
      List.drop_left
    rw [hrest, String.ofList_toList]

theorem settingName?_eq_none {name : String} : settingName? name = none ↔ ¬ IsSetting name := by
  rw [IsSetting, ← not_iff_not, not_not, ← Ne, Option.ne_none_iff_exists']
  exact exists_congr fun _ => settingName?_eq_some

/-- The settings after a variable that is taken, whatever it is about. -/
def changedBy (o : Options) (v : String × String) : Options where
  endpoint := (endpointGiven? v).getD o.endpoint
  frequency := (frequencyGiven? v).getD o.frequency
  patience := (patienceGiven? v).getD o.patience

/-- A known setting is a value that is read and a change of the settings: the variable is
refused if there is no such value, and else it makes the change. -/
theorem take_cases_of_read {α : Type} {o : Options} {v : String × String} (read? : Option α)
    (change : α → Options) (hsetting : IsSetting v.1)
    (htake : o.take v.1 v.2 = (orInvalid v.1 (Text.trim v.2) read?).map change)
    (hfault : faultOf v = .invalidValue v.1 (Text.trim v.2))
    (hgiven : endpointGiven? v = none ∧ frequencyGiven? v = none ∧ patienceGiven? v = none ↔
      read? = none)
    (hchanged : ∀ a ∈ read?, o.changedBy v = change a) :
    (Refused v ∧ o.take v.1 v.2 = .error (faultOf v)) ∨
      (¬ Refused v ∧ o.take v.1 v.2 = .ok (o.changedBy v)) := by
  rw [htake, hfault]
  rcases read? with _ | a
  · obtain ⟨he, hf, hp⟩ := hgiven.mpr rfl
    exact .inl ⟨⟨hsetting, he, hf, hp⟩, rfl⟩
  · rw [hchanged a rfl]
    refine .inr ⟨fun h => ?_, rfl⟩
    exact absurd (hgiven.mp ⟨h.endpoint, h.frequency, h.patience⟩) (by simp)

/-- **One variable.** It is refused, with its own fault, or it gives its setting what it says
and leaves the others alone. -/
theorem take_cases (o : Options) (v : String × String) :
    (Refused v ∧ o.take v.1 v.2 = .error (faultOf v)) ∨
      (¬ Refused v ∧ o.take v.1 v.2 = .ok (o.changedBy v)) := by
  obtain ⟨name, value⟩ := v
  have hname : ∀ setting : String, "KEYSPACE_" ++ setting = name →
      settingName? name = some setting ∧ IsSetting name :=
    fun _ h => ⟨settingName?_eq_some.mpr h.symm, _, h.symm⟩
  -- three names are known; any other is unknown, or none of the service's business
  by_cases haddr : name = "KEYSPACE_ADDR"
  · obtain ⟨hcut, hsetting⟩ := hname "ADDR" haddr.symm
    subst haddr
    refine take_cases_of_read (Endpoint.read? (Text.trim value))
      (fun e => { o with endpoint := e }) hsetting ?_ rfl ?_ ?_
    · rw [take, hcut]
      rfl
    · simp [endpointGiven?, frequencyGiven?, patienceGiven?]
    · intro e he
      simp [changedBy, endpointGiven?, frequencyGiven?, patienceGiven?, Option.mem_def.mp he]
  by_cases hhz : name = "KEYSPACE_HZ"
  · obtain ⟨hcut, hsetting⟩ := hname "HZ" hhz.symm
    subst hhz
    refine take_cases_of_read
      ((Text.Numeral.read? Text.Numeral.max32 (Text.trim value)).filter (· ≠ 0))
      (fun n => { o with frequency := n }) hsetting ?_ rfl ?_ ?_
    · rw [take, hcut]
      rfl
    · simp [endpointGiven?, frequencyGiven?, patienceGiven?]
    · intro n hn
      have hread : frequencyGiven? ("KEYSPACE_HZ", value) = some n := (if_pos rfl).trans hn
      simp [changedBy, endpointGiven?, patienceGiven?, hread]
  by_cases hms : name = "KEYSPACE_REHASH_MS"
  · obtain ⟨hcut, hsetting⟩ := hname "REHASH_MS" hms.symm
    subst hms
    refine take_cases_of_read (Text.Numeral.read? Text.Numeral.max64 (Text.trim value))
      (fun n => { o with patience := n }) hsetting ?_ rfl ?_ ?_
    · rw [take, hcut]
      rfl
    · simp [endpointGiven?, frequencyGiven?, patienceGiven?]
    · intro n hn
      simp [changedBy, endpointGiven?, frequencyGiven?, patienceGiven?, Option.mem_def.mp hn]
  have hgiven : endpointGiven? (name, value) = none ∧ frequencyGiven? (name, value) = none ∧
      patienceGiven? (name, value) = none := ⟨if_neg haddr, if_neg hhz, if_neg hms⟩
  obtain ⟨he, hf, hp⟩ := hgiven
  by_cases hsetting : IsSetting name
  · obtain ⟨setting, rfl⟩ := id hsetting
    refine .inl ⟨⟨hsetting, he, hf, hp⟩, ?_⟩
    -- what stands behind the marker is none of the known names either
    have hother : ∀ known, "KEYSPACE_" ++ setting ≠ "KEYSPACE_" ++ known → setting ≠ known :=
      fun known h hsame => h (congrArg _ hsame)
    rw [take, (hname setting rfl).1]
    dsimp only
    rw [if_neg (hother "ADDR" haddr), if_neg (hother "HZ" hhz), if_neg (hother "REHASH_MS" hms),
      faultOf, if_neg (by simp [haddr, hhz, hms])]
  · refine .inr ⟨fun h => hsetting h.isSetting, ?_⟩
    rw [take, settingName?_eq_none.mpr hsetting, changedBy, he, hf, hp]
    rfl

theorem take_of_refused {v : String × String} (h : Refused v) (o : Options) :
    o.take v.1 v.2 = .error (faultOf v) := by
  rcases o.take_cases v with ⟨-, htake⟩ | ⟨hnot, -⟩
  · exact htake
  · exact absurd h hnot

theorem take_of_taken {v : String × String} (h : ¬ Refused v) (o : Options) :
    o.take v.1 v.2 = .ok (o.changedBy v) := by
  rcases o.take_cases v with ⟨hrefused, -⟩ | ⟨-, htake⟩
  · exact absurd hrefused h
  · exact htake

/-! ## Many variables -/

/-- What the last of the variables gives that give it at all, or else what there was. -/
def latest {α : Type} (given? : String × String → Option α) (vars : List (String × String))
    (old : α) : α :=
  (vars.filterMap given?).getLast?.getD old

/-- The settings after variables that are taken. -/
def changedByAll (o : Options) (vars : List (String × String)) : Options where
  endpoint := latest endpointGiven? vars o.endpoint
  frequency := latest frequencyGiven? vars o.frequency
  patience := latest patienceGiven? vars o.patience

/-- What the first variable gives counts until a later one gives something. -/
theorem latest_cons {α : Type} (given? : String × String → Option α) (v : String × String)
    (vars : List (String × String)) (old : α) :
    latest given? (v :: vars) old = latest given? vars ((given? v).getD old) := by
  rw [latest, latest, List.filterMap_cons]
  rcases given? v with _ | a
  · rfl
  · rw [Option.getD_some, List.getLast?_cons]
    rfl

theorem changedByAll_cons (o : Options) (v : String × String) (vars : List (String × String)) :
    o.changedByAll (v :: vars) = (o.changedBy v).changedByAll vars := by
  rw [changedByAll, changedByAll, latest_cons, latest_cons, latest_cons, changedBy]

/-- A variable that is taken leaves it to the others. -/
theorem takeAll_cons_of_taken {v : String × String} (h : ¬ Refused v) (o : Options)
    (vars : List (String × String)) : o.takeAll (v :: vars) = (o.changedBy v).takeAll vars := by
  rw [takeAll, take_of_taken h]

/-- **Variables that are taken** change the settings, and what comes behind them is taken or
not by what they leave. -/
theorem takeAll_append {before : List (String × String)} (h : ∀ v ∈ before, ¬ Refused v)
    (after : List (String × String)) : ∀ o : Options,
      o.takeAll (before ++ after) = (o.changedByAll before).takeAll after := by
  induction before with
  | nil => exact fun _ => rfl
  | cons v before ih =>
    intro o
    rw [List.cons_append, takeAll_cons_of_taken (h v List.mem_cons_self), changedByAll_cons]
    exact ih (fun w hw => h w (List.mem_cons_of_mem _ hw)) _

theorem takeAll_of_taken {vars : List (String × String)} (h : ∀ v ∈ vars, ¬ Refused v)
    (o : Options) : o.takeAll vars = (o.changedByAll vars, none) := by
  have hall := takeAll_append h [] o
  rwa [List.append_nil] at hall

/-- **The first refused variable** ends it, and what came before it is in force. -/
theorem takeAll_of_refused {before after : List (String × String)} {v : String × String}
    (h : ∀ w ∈ before, ¬ Refused w) (hv : Refused v) (o : Options) :
    o.takeAll (before ++ v :: after) = (o.changedByAll before, some (faultOf v)) := by
  rw [takeAll_append h, takeAll, take_of_refused hv]

/-- The variables are all taken, or there is a first one that is refused. -/
theorem taken_or_exists_refused (vars : List (String × String)) :
    (∀ v ∈ vars, ¬ Refused v) ∨ ∃ before v after, vars = before ++ v :: after ∧
      (∀ w ∈ before, ¬ Refused w) ∧ Refused v := by
  induction vars with
  | nil => exact .inl fun _ h => absurd h List.not_mem_nil
  | cons v vars ih =>
    by_cases hv : Refused v
    · exact .inr ⟨[], v, vars, rfl, fun _ h => absurd h List.not_mem_nil, hv⟩
    · rcases ih with hall | ⟨before, w, after, rfl, hbefore, hw⟩
      · exact .inl (List.forall_mem_cons.mpr ⟨hv, hall⟩)
      · exact .inr ⟨v :: before, w, after, rfl, List.forall_mem_cons.mpr ⟨hv, hbefore⟩, hw⟩

/-- Nothing is wrong if and only if no variable is refused. -/
theorem takeAll_eq_none_iff {o : Options} {vars : List (String × String)} :
    (o.takeAll vars).2 = none ↔ ∀ v ∈ vars, ¬ Refused v := by
  constructor
  · intro h
    rcases taken_or_exists_refused vars with hall | ⟨before, v, after, rfl, hbefore, hv⟩
    · exact hall
    · rw [takeAll_of_refused hbefore hv] at h
      exact absurd h (by simp)
  · intro h
    rw [takeAll_of_taken h]

/-! ## Order -/

/-- **A setting that one name gives** is the same in any order, if no name comes twice. -/
theorem latest_of_perm {α : Type} {given? : String × String → Option α} {name : String}
    (hname : ∀ v, v.1 ≠ name → given? v = none) {vars vars' : List (String × String)}
    (h : vars.Perm vars') (hdistinct : (vars.map Prod.fst).Nodup) (old : α) :
    latest given? vars old = latest given? vars' old := by
  have hperm := h.filterMap given?
  -- at most one variable has the name, so that there is at most one value
  have hone : (vars.filterMap given?).length ≤ 1 := by
    have hall : (vars.filter fun v => v.1 = name).map Prod.fst =
        List.replicate (vars.filter fun v => v.1 = name).length name := by
      refine List.eq_replicate_iff.mpr ⟨List.length_map _, ?_⟩
      intro x hx
      obtain ⟨v, hv, rfl⟩ := List.mem_map.mp hx
      exact of_decide_eq_true (List.mem_filter.mp hv).2
    have hsub := (List.filter_sublist (p := fun v => decide (v.1 = name)) (l := vars)).map Prod.fst
    have hnodup := hdistinct.sublist hsub
    rw [hall, List.nodup_replicate] at hnodup
    have hsame : vars.filterMap given? = (vars.filter fun v => v.1 = name).filterMap given? := by
      rw [List.filterMap_filter]
      refine List.filterMap_congr fun v _ => ?_
      by_cases hv : v.1 = name
      · simp [hv]
      · simp [hv, hname v hv]
    rw [hsame]
    exact (List.length_filterMap_le _ _).trans hnodup
  have hequal : vars.filterMap given? = vars'.filterMap given? := by
    generalize vars.filterMap given? = values at hperm hone
    rcases values with _ | ⟨a, _ | ⟨b, values⟩⟩
    · exact hperm.nil_eq
    · exact List.singleton_perm.mp hperm
    · exact absurd hone (by simp)
  rw [latest, latest, hequal]

theorem changedByAll_of_perm {vars vars' : List (String × String)} (h : vars.Perm vars')
    (hdistinct : (vars.map Prod.fst).Nodup) (o : Options) :
    o.changedByAll vars = o.changedByAll vars' := by
  have haddr : ∀ v : String × String, v.1 ≠ "KEYSPACE_ADDR" → endpointGiven? v = none :=
    fun _ h => if_neg h
  have hhz : ∀ v : String × String, v.1 ≠ "KEYSPACE_HZ" → frequencyGiven? v = none :=
    fun _ h => if_neg h
  have hms : ∀ v : String × String, v.1 ≠ "KEYSPACE_REHASH_MS" → patienceGiven? v = none :=
    fun _ h => if_neg h
  rw [changedByAll, latest_of_perm haddr h hdistinct, latest_of_perm hhz h hdistinct,
    latest_of_perm hms h hdistinct]
  rfl

/-! ## Variables that are not settings -/

theorem not_refused_of_not_isSetting {v : String × String} (h : ¬ IsSetting v.1) : ¬ Refused v :=
  fun hv => h hv.isSetting

/-- A variable that is not a setting is passed. -/
theorem changedBy_of_not_isSetting {v : String × String} (h : ¬ IsSetting v.1) (o : Options) :
    o.changedBy v = o := by
  have hother : ∀ setting, v.1 ≠ "KEYSPACE_" ++ setting := fun setting he => h ⟨setting, he⟩
  have he : endpointGiven? v = none := if_neg (hother "ADDR")
  have hf : frequencyGiven? v = none := if_neg (hother "HZ")
  have hp : patienceGiven? v = none := if_neg (hother "REHASH_MS")
  rw [changedBy, he, hf, hp]
  rfl

/-- It makes no difference where it stands, or whether it is there. -/
theorem takeAll_insert {v : String × String} (h : ¬ IsSetting v.1)
    (before after : List (String × String)) (o : Options) :
    o.takeAll (before ++ v :: after) = o.takeAll (before ++ after) := by
  rcases taken_or_exists_refused before with hbefore | ⟨front, w, back, rfl, hfront, hw⟩
  · rw [takeAll_append hbefore, takeAll_append hbefore,
      takeAll_cons_of_taken (not_refused_of_not_isSetting h), changedBy_of_not_isSetting h]
  · rw [List.append_assoc, List.append_assoc, List.cons_append, List.cons_append,
      takeAll_of_refused hfront hw, takeAll_of_refused hfront hw]

/-! ## The frequency -/

theorem pos_of_frequencyGiven {v : String × String} {n : Nat} (h : frequencyGiven? v = some n) :
    0 < n := by
  rw [frequencyGiven?] at h
  split at h
  · have hne := (Option.filter_eq_some_iff.mp h).2
    exact Nat.pos_of_ne_zero (of_decide_eq_true hne)
  · exact absurd h (by simp)

/-- **The upkeep always runs**: no variable can make the frequency zero. -/
theorem frequency_pos_takeAll (vars : List (String × String)) : ∀ {o : Options},
    0 < o.frequency → 0 < (o.takeAll vars).1.frequency := by
  induction vars with
  | nil => exact id
  | cons v vars ih =>
    intro o ho
    by_cases hv : Refused v
    · rw [takeAll, take_of_refused hv]
      exact ho
    · rw [takeAll_cons_of_taken hv]
      refine ih ?_
      rw [changedBy]
      rcases hgiven : frequencyGiven? v with _ | n
      · exact ho
      · exact pos_of_frequencyGiven hgiven

/-- **Settings in any order.** From any settings on, two orders of variables with different
names come to the same settings, or something is wrong in both. A variable whose name is not
that of a setting may be put in or taken out anywhere. Whatever the names, the reading fails
at the first variable that is refused, with the fault of this one and with the settings that
those before it come to; nothing else makes it fail. Each of the settings that variables come
to is what the last of them gives that gives it at all, or else what it was. The upkeep runs at
least once a second, whether the reading fails or not, if it did before. -/
theorem settings_in_any_order (o : Options) :
    (∀ vars vars', vars.Perm vars' → (vars.map Prod.fst).Nodup →
      ((o.takeAll vars).2 = none ∧ o.takeAll vars' = o.takeAll vars) ∨
        ((o.takeAll vars).2.isSome ∧ (o.takeAll vars').2.isSome)) ∧
      (∀ before v after, ¬ IsSetting v.1 →
        o.takeAll (before ++ v :: after) = o.takeAll (before ++ after)) ∧
      (∀ vars o' e, o.takeAll vars = (o', some e) ↔
        ∃ before v after, vars = before ++ v :: after ∧ o.takeAll before = (o', none) ∧
          Refused v ∧ e = faultOf v) ∧
      (∀ vars o', o.takeAll vars = (o', none) ↔ (∀ v ∈ vars, ¬ Refused v) ∧
        o'.endpoint = (vars.filterMap endpointGiven?).getLast?.getD o.endpoint ∧
        o'.frequency = (vars.filterMap frequencyGiven?).getLast?.getD o.frequency ∧
        o'.patience = (vars.filterMap patienceGiven?).getLast?.getD o.patience) ∧
      ∀ vars, 1 ≤ o.frequency → 1 ≤ (o.takeAll vars).1.frequency := by
  refine ⟨?_, ?_, ?_, ?_, ?_⟩
  · intro vars vars' hperm hdistinct
    rcases hall : (o.takeAll vars).2 with _ | e
    · have htaken := takeAll_eq_none_iff.mp hall
      have htaken' : ∀ v ∈ vars', ¬ Refused v := fun v hv => htaken v (hperm.mem_iff.mpr hv)
      refine .inl ⟨rfl, ?_⟩
      rw [takeAll_of_taken htaken, takeAll_of_taken htaken',
        changedByAll_of_perm hperm hdistinct]
    · refine .inr ⟨rfl, ?_⟩
      rw [← Option.ne_none_iff_isSome, Ne, takeAll_eq_none_iff]
      intro htaken'
      have htaken := (takeAll_eq_none_iff (o := o)).mpr fun v hv =>
        htaken' v (hperm.mem_iff.mp hv)
      exact absurd (hall.symm.trans htaken) (by simp)
  · intro before v after hv
    exact takeAll_insert hv before after o
  · intro vars o' e
    constructor
    · intro h
      rcases taken_or_exists_refused vars with hall | ⟨before, v, after, rfl, hbefore, hv⟩
      · rw [takeAll_of_taken hall] at h
        exact absurd (congrArg Prod.snd h) (by simp)
      · rw [takeAll_of_refused hbefore hv] at h
        obtain ⟨rfl, he⟩ := Prod.mk.inj h
        exact ⟨before, v, after, rfl, takeAll_of_taken hbefore o, hv, (Option.some.inj he).symm⟩
    · rintro ⟨before, v, after, rfl, hbefore, hv, rfl⟩
      have htaken := takeAll_eq_none_iff.mp (congrArg Prod.snd hbefore)
      rw [takeAll_of_taken htaken] at hbefore
      rw [takeAll_of_refused htaken hv, (Prod.mk.inj hbefore).1]
  · intro vars o'
    constructor
    · intro h
      have htaken := takeAll_eq_none_iff.mp (congrArg Prod.snd h)
      rw [takeAll_of_taken htaken] at h
      obtain ⟨rfl, -⟩ := Prod.mk.inj h
      exact ⟨htaken, rfl, rfl, rfl⟩
    · rintro ⟨htaken, he, hf, hp⟩
      rw [takeAll_of_taken htaken]
      obtain ⟨endpoint, frequency, patience⟩ := o'
      dsimp only at he hf hp
      rw [he, hf, hp]
      rfl
  · intro vars ho
    exact frequency_pos_takeAll vars ho

/-- Three variables, one of them not a setting, in two orders and without this one; and with
the frequency given once more, as one that it cannot be. -/
theorem settings_in_any_order_of_three :
    let vars := [("KEYSPACE_HZ", " 50 "), ("PATH", "/usr/bin"), ("KEYSPACE_REHASH_MS", "5")]
    let more := vars ++ [("KEYSPACE_HZ", "0 "), ("KEYSPACE_REHASH_MS", "7")]
    let o : Options := { standard with frequency := 50, patience := 5 }
    standard.takeAll vars = (o, none) ∧ standard.takeAll vars.reverse = (o, none) ∧
      standard.takeAll [("KEYSPACE_HZ", " 50 "), ("KEYSPACE_REHASH_MS", "5")] = (o, none) ∧
      standard.takeAll more = (o, some (.invalidValue "KEYSPACE_HZ" "0")) ∧
      1 ≤ (standard.takeAll more).1.frequency := by
  intro vars more o
  obtain ⟨horder, hinsert, hfirst, -, hfrequency⟩ := settings_in_any_order standard
  have hvars : standard.takeAll vars = (o, none) := by decide +kernel
  have hreverse := horder vars vars.reverse (List.reverse_perm vars).symm (by decide)
  rw [hvars] at hreverse
  have hpath : ¬ IsSetting "PATH" := settingName?_eq_none.mp (by decide +kernel)
  have hwithout := hinsert [("KEYSPACE_HZ", " 50 ")] ("PATH", "/usr/bin")
    [("KEYSPACE_REHASH_MS", "5")] hpath
  have hnever : Refused ("KEYSPACE_HZ", "0 ") :=
    ⟨⟨"HZ", rfl⟩, if_neg (by decide), by decide +kernel, if_neg (by decide)⟩
  have hmore := (hfirst more o (faultOf ("KEYSPACE_HZ", "0 "))).mpr
    ⟨vars, ("KEYSPACE_HZ", "0 "), [("KEYSPACE_REHASH_MS", "7")], rfl, hvars, hnever, rfl⟩
  have hfault : faultOf ("KEYSPACE_HZ", "0 ") = .invalidValue "KEYSPACE_HZ" "0" := by
    decide +kernel
  rw [hfault] at hmore
  exact ⟨hvars, (hreverse.resolve_right (by simp)).2, hwithout.symm.trans hvars, hmore,
    hfrequency more (by decide)⟩

end Options

end TwinTable.Service
