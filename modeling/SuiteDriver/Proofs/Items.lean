import Mathlib.Data.List.Nodup
import SuiteDriver.CommandLine.Spelling

/-!
# What may be said together

What the words of one level say so far is determined by the items in them (`Given.ofItems`). One
more item can be given exactly if it may be said besides these, and then it is said; so a level
never has to be followed word by word to know what it says.

* `Given.giveFlag_ofItems`, `Given.giveOpt_ofItems`: one more item;
* `Sayable.valueOf?_eq_some_iff`: an option has the one value that an item gives to it.
-/

namespace SuiteDriver.CommandLine

/-! ## 1. Names -/

namespace Name

/-- A name that a level knows is found there, in full. -/
theorem ofLong?_longName {level : Level} {n : Name} (h : n.IsKnown level) :
    ofLong? level n.longName.toList = some n := by
  revert h
  cases level <;> cases n with
  | flag f => cases f <;> decide
  | opt o => cases o <;> decide

theorem ofShort?_shortName {level : Level} {n : Name} {c : Char} (h : n.IsKnown level)
    (hc : n.shortName? = some c) : ofShort? level c = some n := by
  revert h
  cases level <;> cases n with
  | flag f => cases f <;> cases hc <;> decide
  | opt o =>
    cases o <;> cases hc
    decide

/-- Only names that the level knows are found. -/
theorem of_ofLong? {level : Level} {s : List Char} {n : Name} (h : ofLong? level s = some n) :
    n.IsKnown level ∧ s = n.longName.toList := by
  unfold ofLong? at h
  split at h
  · next o ho =>
    cases h
    have hs := List.find?_some ho
    exact ⟨List.mem_of_find?_eq_some ho, (of_decide_eq_true hs).symm⟩
  · obtain ⟨f, hf, rfl⟩ := Option.map_eq_some_iff.mp h
    have hs := List.find?_some hf
    exact ⟨List.mem_of_find?_eq_some hf, (of_decide_eq_true hs).symm⟩

theorem of_ofShort? {level : Level} {c : Char} {n : Name} (h : ofShort? level c = some n) :
    n.IsKnown level ∧ n.shortName? = some c := by
  unfold ofShort? at h
  split at h
  · next o ho =>
    cases h
    have hc := List.find?_some ho
    exact ⟨List.mem_of_find?_eq_some ho, of_decide_eq_true hc⟩
  · obtain ⟨f, hf, rfl⟩ := Option.map_eq_some_iff.mp h
    have hc := List.find?_some hf
    exact ⟨List.mem_of_find?_eq_some hf, of_decide_eq_true hc⟩

/-- No long name is empty or holds an equals sign. -/
theorem longName_chars (n : Name) :
    n.longName.toList ≠ [] ∧ ∀ c ∈ n.longName.toList, c ≠ '=' := by
  have hall : n.longName.toList.all (fun c => decide (c ≠ '=')) = true := by
    cases n with
    | flag f => cases f <;> decide
    | opt o => cases o <;> decide
  constructor
  · cases n with
    | flag f => cases f <;> decide
    | opt o => cases o <;> decide
  · exact fun c hc => of_decide_eq_true (List.all_eq_true.mp hall c hc)

/-- No short name is a dash. -/
theorem shortName_ne_dash {n : Name} {c : Char} (h : n.shortName? = some c) : c ≠ '-' := by
  cases n with
  | flag f => cases f <;> cases h <;> decide
  | opt o =>
    cases o <;> cases h
    decide

end Name

theorem Spelling.IsShort.exists_shortName {level : Level} {n : Name} (h : IsShort level n) :
    ∃ c, n.shortName? = some c :=
  Option.isSome_iff_exists.mp h.2

/-! ## 2. Items -/

theorem Item.valueFor?_eq_some_iff {o : Opt} {i : Item} {value : String} :
    i.valueFor? o = some value ↔ i = .opt o value := by
  cases i with
  | flag f => exact ⟨nofun, nofun⟩
  | opt p v =>
    by_cases hp : p = o
    · subst hp
      simp [Item.valueFor?]
    · simp [Item.valueFor?, hp]

theorem flag_mem_names {f : Flag} {is : List Item} :
    Name.flag f ∈ is.map Item.name ↔ .flag f ∈ is := by
  refine ⟨fun hmem => ?_, List.mem_map_of_mem⟩
  obtain ⟨i, hi, hname⟩ := List.mem_map.mp hmem
  cases i with
  | flag => cases hname; exact hi
  | opt => cases hname

/-- An option that no item is about has no value. -/
theorem valueOf?_eq_none {o : Opt} {is : List Item} (h : Name.opt o ∉ is.map Item.name) :
    valueOf? o is = none := by
  refine List.findSome?_eq_none_iff.mpr fun i hi => ?_
  cases hvalue : i.valueFor? o with
  | none => rfl
  | some value =>
    refine absurd (List.mem_map.mpr ⟨i, hi, ?_⟩) h
    rw [Item.valueFor?_eq_some_iff.mp hvalue]
    rfl

theorem mem_of_valueOf? {o : Opt} {is : List Item} {value : String}
    (h : valueOf? o is = some value) : .opt o value ∈ is := by
  obtain ⟨i, hi, hvalue⟩ := List.exists_of_findSome?_eq_some h
  exact Item.valueFor?_eq_some_iff.mp hvalue ▸ hi

@[simp] theorem valueOf?_append (o : Opt) (is js : List Item) :
    valueOf? o (is ++ js) = (valueOf? o is).or (valueOf? o js) :=
  List.findSome?_append

@[simp] theorem valueOf?_singleton (o : Opt) (i : Item) : valueOf? o [i] = i.valueFor? o := by
  unfold valueOf?
  rw [List.findSome?_singleton]

namespace Sayable

variable {is js : List Item}

theorem nil : Sayable [] := ⟨List.nodup_nil, List.forall_mem_nil _⟩

theorem of_append (h : Sayable (is ++ js)) : Sayable is where
  once := by
    have honce := h.once
    rw [List.map_append] at honce
    exact honce.of_append_left
  each i hi := h.each i (List.mem_append_left js hi)

theorem perm (h : Sayable is) (hperm : js.Perm is) : Sayable js where
  once := (hperm.map Item.name).nodup_iff.mpr h.once
  each i hi := h.each i (hperm.mem_iff.mp hi)

/-- One more item may be said if it is about something else and lets the reading go on. -/
theorem append_singleton_iff (h : Sayable is) {i : Item} :
    Sayable (is ++ [i]) ↔ i.name ∉ is.map Item.name ∧ i.IsSayable := by
  have honce : ((is ++ [i]).map Item.name).Nodup ↔ i.name ∉ is.map Item.name := by
    rw [List.map_append, List.map_singleton, ← List.concat_eq_append, List.nodup_concat]
    exact and_iff_left h.once
  constructor
  · intro hi
    exact ⟨honce.mp hi.once, hi.each i (List.mem_append_right _ (List.mem_singleton_self i))⟩
  · rintro ⟨hname, hsayable⟩
    exact ⟨honce.mpr hname,
      List.forall_mem_append.mpr ⟨h.each, List.forall_mem_singleton.mpr hsayable⟩⟩

/-- An option has the one value that an item gives to it. -/
theorem valueOf?_eq_some_iff (h : Sayable is) {o : Opt} {value : String} :
    valueOf? o is = some value ↔ .opt o value ∈ is := by
  refine ⟨mem_of_valueOf?, fun hmem => ?_⟩
  cases hvalue : valueOf? o is with
  | none =>
    have hnone := List.findSome?_eq_none_iff.mp hvalue _ hmem
    rw [Item.valueFor?_eq_some_iff.mpr rfl] at hnone
    cases hnone
  | some v =>
    have hsame := List.inj_on_of_nodup_map h.once (mem_of_valueOf? hvalue) hmem rfl
    cases hsame
    rfl

end Sayable

/-! ## 3. One more item -/

namespace Given

variable {is : List Item}

/-- A flag adds itself to what items say. -/
theorem ofItems_append_flag (is : List Item) (f : Flag) :
    ofItems (is ++ [.flag f]) =
      { ofItems is with
        verbose := decide (.flag .verbose ∈ is ∨ .verbose = f)
        dryRun := decide (.flag .dryRun ∈ is ∨ .dryRun = f)
        force := decide (.flag .force ∈ is ∨ .force = f) } := by
  simp [ofItems, Item.valueFor?]

/-- **A flag may be given exactly if it may be said** besides the items, and then it is said. -/
theorem giveFlag_ofItems (h : Sayable is) {level : Level} {f : Flag} {g : Given} :
    (ofItems is).giveFlag level f = .ok g ↔
      Sayable (is ++ [.flag f]) ∧ g = ofItems (is ++ [.flag f]) := by
  rw [h.append_singleton_iff, Item.name, flag_mem_names, ofItems_append_flag]
  cases f with
  | help => simp [giveFlag, Item.IsSayable]
  | version => simp [giveFlag, Item.IsSayable]
  | verbose =>
    by_cases hv : .flag .verbose ∈ is <;>
      simp [giveFlag, ofItems, hv, Item.IsSayable, eq_comm]
  | dryRun =>
    by_cases hv : .flag .dryRun ∈ is <;>
      simp [giveFlag, ofItems, hv, Item.IsSayable, eq_comm]
  | force =>
    by_cases hv : .flag .force ∈ is <;>
      simp [giveFlag, ofItems, hv, Item.IsSayable, eq_comm]

/-- An option counts as given exactly if an item is about it. -/
theorem hasOpt_ofItems (h : Sayable is) (o : Opt) :
    (ofItems is).hasOpt o = true ↔ Name.opt o ∈ is.map Item.name := by
  have hvalue : (ofItems is).hasOpt o = (valueOf? o is).isSome := by
    cases o with
    | lang | projectDir | config => rfl
    | variant =>
      show ((valueOf? .variant is).bind Variant.ofName?).isSome = _
      cases hv : valueOf? .variant is with
      | none => rfl
      | some value => exact h.each _ (mem_of_valueOf? hv)
  rw [hvalue]
  constructor
  · intro hsome
    obtain ⟨value, hv⟩ := Option.isSome_iff_exists.mp hsome
    exact List.mem_map_of_mem (mem_of_valueOf? hv)
  · intro hmem
    obtain ⟨i, hi, hname⟩ := List.mem_map.mp hmem
    cases i with
    | flag f => cases hname
    | opt p value =>
      cases hname
      rw [h.valueOf?_eq_some_iff.mpr hi]
      rfl

/-- An option that no item is about is set exactly if it can have the value. -/
theorem setOpt?_ofItems {o : Opt} (h : Name.opt o ∉ is.map Item.name) {value : String} {g : Given} :
    (ofItems is).setOpt? o value = .ok g ↔
      (Item.opt o value).IsSayable ∧ g = ofItems (is ++ [.opt o value]) := by
  have hnone := valueOf?_eq_none h
  cases o with
  | lang => simp [setOpt?, ofItems, Item.IsSayable, Item.valueFor?, hnone, eq_comm]
  | projectDir => simp [setOpt?, ofItems, Item.IsSayable, Item.valueFor?, hnone, eq_comm]
  | config =>
    by_cases hv : value = ""
    · simp [setOpt?, hv, Item.IsSayable]
    · simp [setOpt?, hv, ofItems, Item.IsSayable, Item.valueFor?, hnone, eq_comm]
  | variant =>
    by_cases hv : value = ""
    · have hempty : Variant.ofName? "" = none := rfl
      simp [setOpt?, hv, Item.IsSayable, hempty]
    · have hnames : value ∈ Variant.names ↔ (Variant.ofName? value).isSome = true := by
        rw [Variant.mem_names_iff, Option.isSome_iff_exists]
      cases hn : Variant.ofName? value with
      | none => simp [setOpt?, hv, Item.IsSayable, hnames, hn]
      | some v =>
        simp [setOpt?, hv, hnames, hn, ofItems, Item.IsSayable, Item.valueFor?, hnone, eq_comm]

/-- **An option may be given exactly if it may be said** besides the items, and then it is said. -/
theorem giveOpt_ofItems (h : Sayable is) {o : Opt} {value : String} {g : Given} :
    (ofItems is).giveOpt o value = .ok g ↔
      Sayable (is ++ [.opt o value]) ∧ g = ofItems (is ++ [.opt o value]) := by
  rw [h.append_singleton_iff, Item.name]
  have hhas := hasOpt_ofItems h o
  unfold giveOpt
  split
  · next hgiven =>
    exact ⟨nofun, fun hnew => absurd (hhas.mp hgiven) hnew.1.1⟩
  · next hgiven =>
    have hname := mt hhas.mpr hgiven
    rw [and_iff_right hname, ← setOpt?_ofItems hname]
    split
    · next k hk =>
      rw [hk]
      exact ⟨fun hg => congrArg _ (Except.ok.inj hg), fun hg => congrArg _ (Except.ok.inj hg)⟩
    · next m hm =>
      rw [hm]
      exact ⟨nofun, nofun⟩

end Given

end SuiteDriver.CommandLine
