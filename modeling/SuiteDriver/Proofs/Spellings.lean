import Mathlib.Data.List.TakeWhile
import SuiteDriver.Proofs.Items

/-!
# What is written is what is read

The words of a level are read exactly if they are spellings with names that the level knows, and if
what they say may be said together; then this is what is read. Three relations carry it:

* `State.Tells`: the words so far say exactly certain items;
* `ReadsWords`: how the words are read, one after the other;
* `Leads`: a word is a spelling of its own, or the first half of one.

Main statements:

* `ReadsWords.readLevel`, `readsWords_of_readLevel`: the relation is the function;
* `ReadsWords.of_written`: spellings are read as what they say;
* `ReadsWords.exists_written`: nothing but spellings is read.
-/

namespace SuiteDriver.CommandLine

/-! ## 1. What a state tells -/

namespace State

/-- **The words so far say exactly these items**, once the pending option is looked at. -/
structure Tells (s : State) (is : List Item) : Prop where
  sayable : Sayable is
  settled : s.settle = .ok (Given.ofItems is)

variable {s t : State} {level : Level} {is : List Item}

theorem tells_initial : initial.Tells [] := ⟨Sayable.nil, rfl⟩

theorem tells_of_none (h : Sayable is) : Tells ⟨Given.ofItems is, .none⟩ is := ⟨h, rfl⟩

/-- An option with its value tells the item that it will give. -/
theorem tells_of_holding {o : Opt} {value : String} (h : Sayable (is ++ [.opt o value])) :
    Tells ⟨Given.ofItems is, .holding o value⟩ (is ++ [.opt o value]) :=
  ⟨h, (Given.giveOpt_ofItems h.of_append).mpr ⟨h, rfl⟩⟩

theorem Tells.awaits? (h : s.Tells is) : s.awaits? = none := by
  obtain ⟨given, pending⟩ := s
  cases pending with
  | none | holding => rfl
  | awaiting o => cases h.settled

/-- A flag can come exactly if it may be said. -/
theorem Tells.onFlag_eq_ok_iff (h : s.Tells is) {f : Flag} :
    s.onFlag level f = .ok t ↔
      Sayable (is ++ [.flag f]) ∧ t = ⟨Given.ofItems (is ++ [.flag f]), .none⟩ := by
  have hgive (g : Given) : (Given.ofItems is).giveFlag level f = .ok g ↔ _ :=
    Given.giveFlag_ofItems h.sayable
  unfold onFlag
  rw [h.settled]
  dsimp only
  cases hg : (Given.ofItems is).giveFlag level f with
  | error e =>
    refine ⟨nofun, fun hsay => ?_⟩
    have hok := (hgive _).mpr ⟨hsay.1, rfl⟩
    rw [hg] at hok
    cases hok
  | ok g =>
    obtain ⟨hsay, rfl⟩ := (hgive g).mp hg
    exact ⟨fun ht => ⟨hsay, (Except.ok.inj ht).symm⟩, fun ht => by rw [ht.2]⟩

/-- An option with its value in one word can come exactly if it may be said. -/
theorem Tells.onOpt_some_eq_ok_iff (h : s.Tells is) {o : Opt} {value : String} :
    s.onOpt o (some value) = .ok t ↔
      Sayable (is ++ [.opt o value]) ∧ t = ⟨Given.ofItems (is ++ [.opt o value]), .none⟩ := by
  have hgive (g : Given) : (Given.ofItems is).giveOpt o value = .ok g ↔ _ :=
    Given.giveOpt_ofItems h.sayable
  unfold onOpt
  rw [h.settled]
  dsimp only
  cases hg : (Given.ofItems is).giveOpt o value with
  | error e =>
    refine ⟨nofun, fun hsay => ?_⟩
    have hok := (hgive _).mpr ⟨hsay.1, rfl⟩
    rw [hg] at hok
    cases hok
  | ok g =>
    obtain ⟨hsay, rfl⟩ := (hgive g).mp hg
    exact ⟨fun ht => ⟨hsay, (Except.ok.inj ht).symm⟩, fun ht => by rw [ht.2]⟩

/-- An option without its value is awaited. -/
theorem Tells.onOpt_none (h : s.Tells is) (o : Opt) :
    s.onOpt o none = .ok ⟨Given.ofItems is, .awaiting o⟩ := by
  unfold onOpt
  rw [h.settled]

/-- Nothing goes on from an option that has not been looked at and is wrong. -/
theorem exists_settle_of_onFlag {f : Flag} (h : s.onFlag level f = .ok t) :
    ∃ g, s.settle = .ok g := by
  unfold onFlag at h
  cases hs : s.settle with
  | ok g => exact ⟨g, rfl⟩
  | error e => rw [hs] at h; cases h

theorem exists_settle_of_onOpt {o : Opt} {value : Option String} (h : s.onOpt o value = .ok t) :
    ∃ g, s.settle = .ok g := by
  unfold onOpt at h
  cases hs : s.settle with
  | ok g => exact ⟨g, rfl⟩
  | error e => rw [hs] at h; cases h

theorem exists_settle_of_onLong {cs : List Char} (h : s.onLong level cs = .ok t) :
    ∃ g, s.settle = .ok g := by
  unfold onLong at h
  dsimp only at h
  split at h
  · cases h
  · cases h
  · exact exists_settle_of_onFlag h
  · exact exists_settle_of_onOpt h

theorem exists_settle_of_onShort {c : Char} {cs : List Char}
    (h : s.onShort level (c :: cs) = .ok t) : ∃ g, s.settle = .ok g := by
  unfold onShort at h
  split at h
  · cases h
  · exact exists_settle_of_onOpt h
  · split at h
    · cases h
    · next hflag => exact exists_settle_of_onFlag hflag

end State

/-! ## 2. How a level is read -/

/-- **How the words of a level are read**, one after the other, up to where the level ends; then
    also the words after the subcommand, if it ends there. -/
inductive ReadsWords (level : Level) : State → List String → State → Option (List String) → Prop
  | done (s : State) : ReadsWords level s [] s none
  | closed (s : State) : ReadsWords level s [dashes] s none
  | subcommand (s : State) (rest : List String) (hlevel : level = .program)
      (hawaits : s.awaits? = none) : ReadsWords level s (initWord :: rest) s (some rest)
  | long {s u t : State} {word : String} {c : Char} {name : List Char} {rest : List String}
      {out : Option (List String)} (hword : word.toList = '-' :: '-' :: c :: name)
      (h : s.onLong level (c :: name) = .ok u) (hrest : ReadsWords level u rest t out) :
      ReadsWords level s (word :: rest) t out
  | short {s u t : State} {word : String} {c : Char} {names : List Char} {rest : List String}
      {out : Option (List String)} (hword : word.toList = '-' :: c :: names) (hc : c ≠ '-')
      (h : s.onShort level (c :: names) = .ok u) (hrest : ReadsWords level u rest t out) :
      ReadsWords level s (word :: rest) t out
  | value {s t : State} {o : Opt} {word : String} {rest : List String}
      {out : Option (List String)} (hawaits : s.awaits? = some o) (hvalue : isValue word = true)
      (hrest : ReadsWords level { s with pending := .holding o word } rest t out) :
      ReadsWords level s (word :: rest) t out

section

variable {level : Level} {s t : State} {ws : List String} {out : Option (List String)}

/-- A word with a dash in front is no subcommand. -/
theorem ne_of_dash {word : String} {r : List Char} (h : word.toList = '-' :: r) :
    word ≠ initWord ∧ word ≠ helpWord := by
  constructor
  · rintro rfl
    revert h
    exact nofun
  · rintro rfl
    revert h
    exact nofun

theorem ReadsWords.readLevel (h : ReadsWords level s ws t out) :
    readLevel level s ws = .ok (t, out) := by
  induction h with
  | done s => rfl
  | closed s => simp [CommandLine.readLevel, dashes, initWord, helpWord]
  | subcommand s rest hlevel hawaits => simp [CommandLine.readLevel, hlevel, hawaits]
  | long hword h _ ih =>
    obtain ⟨hinit, hhelp⟩ := ne_of_dash hword
    unfold CommandLine.readLevel
    simp only [hinit, hhelp, and_false, ↓reduceIte, hword, h, ih]
  | short hword hc h _ ih =>
    obtain ⟨hinit, hhelp⟩ := ne_of_dash hword
    unfold CommandLine.readLevel
    simp only [hinit, hhelp, and_false, ↓reduceIte, hword]
    split
    · next heq => exact absurd (List.cons.inj (List.cons.inj heq).2).1 hc
    · next heq => exact absurd (List.cons.inj (List.cons.inj heq).2).1 hc
    · next heq =>
      cases heq
      simp only [h, ih]
    · next hnone => exact absurd rfl (hnone _ _)
  | @value s t o word rest out hawaits hvalue _ ih =>
    unfold CommandLine.readLevel
    simp only [hawaits, reduceCtorEq, false_and, and_false, ↓reduceIte, ih]
    unfold isValue at hvalue
    split
    · next hword => rw [hword] at hvalue; cases hvalue
    · next hword => rw [hword] at hvalue; cases hvalue
    · next hword => rw [hword] at hvalue; cases hvalue
    · rfl

theorem readsWords_of_readLevel (h : CommandLine.readLevel level s ws = .ok (t, out)) :
    ReadsWords level s ws t out := by
  fun_induction CommandLine.readLevel level s ws with
  | case1 s =>
    cases h
    exact .done _
  | case2 s word rest hinit =>
    cases h
    obtain ⟨hlevel, hawaits, rfl⟩ := hinit
    exact .subcommand _ _ hlevel hawaits
  | case3 => cases h
  | case4 s word _ _ hword =>
    cases h
    rw [show word = dashes from String.toList_inj.mp hword]
    exact .closed _
  | case5 => cases h
  | case6 => cases h
  | case7 s word rest _ _ name hname hword u hu ih =>
    cases name with
    | nil => exact absurd rfl hname
    | cons c name => exact .long hword hu (ih h)
  | case8 => cases h
  | case9 s word rest _ _ c names _ hc hword u hu ih => exact .short hword hc hu (ih h)
  | case10 s word rest _ _ o hawaits hclosed hlong hshort ih =>
    refine .value hawaits ?_ (ih h)
    unfold isValue
    split
    · next c r hword => exact absurd hword (hshort _ _)
    · rfl
  | case11 => cases h

end

/-! ## 3. What is written is read -/

theorem shortNames_cons {f : Flag} {c : Char} (h : f.shortName? = some c) (fs : List Flag) :
    shortNames (f :: fs) = c :: shortNames fs :=
  List.filterMap_cons_some h

namespace State

variable {s t : State} {level : Level} {is : List Item}

/-- A name without an equals sign is read in full, and so is the value after one. -/
theorem onLong_longName {n : Name} (h : n.IsKnown level) (s : State) :
    s.onLong level n.longName.toList =
      match n with
      | .flag f => s.onFlag level f
      | .opt o => s.onOpt o none := by
  have hplain : ∀ c ∈ n.longName.toList, decide (c ≠ '=') = true :=
    fun c hc => decide_eq_true ((Name.longName_chars n).2 c hc)
  have hname : n.longName.toList.takeWhile (· ≠ '=') = n.longName.toList :=
    List.takeWhile_eq_self_iff.mpr hplain
  have hvalue : attached? n.longName.toList = none := by
    unfold attached?
    rw [List.dropWhile_eq_nil_iff.mpr hplain]
  unfold onLong
  rw [hname, hvalue]
  simp only [Name.ofLong?_longName h]
  cases n <;> rfl

theorem onLong_equals {o : Opt} (h : Name.IsKnown level (.opt o)) (value : String) (s : State) :
    s.onLong level (o.longName.toList ++ '=' :: value.toList) = s.onOpt o (some value) := by
  have hplain : ∀ c ∈ o.longName.toList, decide (c ≠ '=') = true :=
    fun c hc => decide_eq_true ((Name.longName_chars (.opt o)).2 c hc)
  have hname : (o.longName.toList ++ '=' :: value.toList).takeWhile (· ≠ '=') =
      o.longName.toList := by
    rw [List.takeWhile_append_of_pos hplain]
    exact List.append_nil _
  have hvalue : attached? (o.longName.toList ++ '=' :: value.toList) = some value := by
    unfold attached?
    rw [List.dropWhile_append_of_pos hplain]
    exact congrArg some String.ofList_toList
  have hfind : Name.ofLong? level o.longName.toList = some (.opt o) := Name.ofLong?_longName h
  unfold onLong
  rw [hname, hvalue]
  simp only [hfind]

/-- The value that follows a short name is read, whichever way it is joined to it. -/
theorem clustered?_value {equals : Bool} {value : String}
    (h : equals = false → value ≠ "" ∧ value.toList.head? ≠ some '=') :
    clustered? (if equals then '=' :: value.toList else value.toList) = some value := by
  cases equals with
  | true => exact congrArg some String.ofList_toList
  | false =>
    obtain ⟨hempty, hhead⟩ := h rfl
    cases hv : value.toList with
    | nil => exact absurd (String.toList_inj.mp hv) hempty
    | cons c r =>
      rw [hv] at hhead
      have hc : c ≠ '=' := fun hc => hhead (congrArg some hc)
      simp only [Bool.false_eq_true, ↓reduceIte, clustered?, if_neg hc]
      rw [← hv, String.ofList_toList]

/-- A short name of an option takes the rest of the word. -/
theorem onShort_opt {o : Opt} (h : Spelling.IsShort level (.opt o)) (r : List Char) (s : State) :
    s.onShort level (o.shortName?.toList ++ r) = s.onOpt o (clustered? r) := by
  obtain ⟨c, hc⟩ : ∃ c, o.shortName? = some c := h.exists_shortName
  rw [hc, Option.toList_some, List.singleton_append, onShort]
  simp only [Name.ofShort?_shortName h.1 hc]

/-- Short names of flags are read one after the other. -/
theorem Tells.onShort_shortNames (h : s.Tells is) {fs : List Flag}
    (hfs : ∀ f ∈ fs, Spelling.IsShort level (.flag f))
    (hsay : Sayable (is ++ fs.map .flag)) :
    ∃ u : State, u.Tells (is ++ fs.map .flag) ∧
      ∀ r, s.onShort level (shortNames fs ++ r) = u.onShort level r := by
  induction fs generalizing s is with
  | nil => exact ⟨s, by rwa [List.map_nil, List.append_nil], fun r => rfl⟩
  | cons f fs ih =>
    obtain ⟨hf, hrest⟩ := List.forall_mem_cons.mp hfs
    obtain ⟨c, hc⟩ : ∃ c, f.shortName? = some c := hf.exists_shortName
    rw [List.map_cons, List.append_cons] at hsay ⊢
    have hflag : s.onFlag level f = .ok _ := h.onFlag_eq_ok_iff.mpr ⟨hsay.of_append, rfl⟩
    obtain ⟨u, hu, hread⟩ := ih (tells_of_none hsay.of_append) hrest hsay
    refine ⟨u, hu, fun r => ?_⟩
    rw [shortNames_cons hc, List.cons_append, onShort]
    simp only [Name.ofShort?_shortName hf.1 hc, hflag]
    exact hread r

end State

theorem written_cons (p : Spelling) (ps : List Spelling) :
    written (p :: ps) = p.words ++ written ps :=
  List.flatMap_cons

theorem said_nil : said [] = [] := rfl

theorem said_cons (p : Spelling) (ps : List Spelling) : said (p :: ps) = p.items ++ said ps :=
  List.flatMap_cons

namespace ReadsWords

variable {level : Level} {s u t : State} {is : List Item} {rest : List String}
  {out : Option (List String)}

/-- A word with two dashes in front that is read. -/
theorem of_onLong {name : List Char} (h : s.onLong level name = .ok u)
    (hrest : ReadsWords level u rest t out) :
    ReadsWords level s (String.ofList ('-' :: '-' :: name) :: rest) t out := by
  cases name with
  | nil => cases level <;> cases h
  | cons c name => exact .long String.toList_ofList h hrest

/-- A word with one dash in front that is read. -/
theorem of_onShort {names : List Char} (hne : names ≠ []) (h : s.onShort level names = .ok u)
    (hrest : ReadsWords level u rest t out) :
    ReadsWords level s (String.ofList ('-' :: names) :: rest) t out := by
  cases names with
  | nil => exact absurd rfl hne
  | cons c names =>
    refine .short String.toList_ofList ?_ h hrest
    rintro rfl
    cases level <;> cases h

/-- An option that is awaited takes a word that looks like a value. -/
theorem of_awaiting {o : Opt} {value : String} (hvalue : isValue value = true)
    (hrest : ReadsWords level ⟨Given.ofItems is, .holding o value⟩ rest t out) :
    ReadsWords level ⟨Given.ofItems is, .awaiting o⟩ (value :: rest) t out :=
  .value rfl hvalue hrest

/-- **A spelling is read as what it says**, if that may be said. -/
theorem of_spelling {p : Spelling} (hp : p.IsFor level) (hs : s.Tells is)
    (hsay : Sayable (is ++ p.items)) :
    ∃ u : State, u.Tells (is ++ p.items) ∧ ∀ {rest t out}, ReadsWords level u rest t out →
      ReadsWords level s (p.words ++ rest) t out := by
  cases p with
  | long f =>
    have hflag : s.onFlag level f = .ok _ := hs.onFlag_eq_ok_iff.mpr ⟨hsay, rfl⟩
    have hlong := (State.onLong_longName (n := .flag f) hp s).trans hflag
    exact ⟨_, State.tells_of_none hsay, of_onLong hlong⟩
  | longWith o value =>
    have hopt := hs.onOpt_some_eq_ok_iff.mpr ⟨hsay, rfl⟩
    have hlong := (State.onLong_equals hp value s).trans hopt
    exact ⟨_, State.tells_of_none hsay, of_onLong hlong⟩
  | longThen o value =>
    obtain ⟨hknown, hvalue⟩ := hp
    have hlong := (State.onLong_longName (n := .opt o) hknown s).trans (hs.onOpt_none o)
    exact ⟨_, State.tells_of_holding hsay, fun hrest =>
      of_onLong hlong (of_awaiting hvalue hrest)⟩
  | short f fs =>
    obtain ⟨u, hu, hread⟩ := hs.onShort_shortNames hp hsay
    have hshort := hread []
    rw [List.append_nil] at hshort
    obtain ⟨c, hc⟩ : ∃ c, f.shortName? = some c := (hp f List.mem_cons_self).exists_shortName
    exact ⟨u, hu, of_onShort (by simp [shortNames, hc]) hshort⟩
  | shortWith fs o equals value =>
    obtain ⟨hfs, ho, hvalue⟩ := hp
    rw [Spelling.items, ← List.append_assoc] at hsay ⊢
    obtain ⟨u, hu, hread⟩ := hs.onShort_shortNames hfs hsay.of_append
    have hopt := hu.onOpt_some_eq_ok_iff.mpr ⟨hsay, rfl⟩
    have hshort := (hread _).trans (State.onShort_opt ho
      (if equals then '=' :: value.toList else value.toList) u)
    rw [State.clustered?_value hvalue, hopt, ← List.append_assoc] at hshort
    obtain ⟨c, hc⟩ : ∃ c, o.shortName? = some c := ho.exists_shortName
    exact ⟨_, State.tells_of_none hsay, of_onShort (by simp [hc]) hshort⟩
  | shortThen fs o value =>
    obtain ⟨hfs, ho, hvalue⟩ := hp
    rw [Spelling.items, ← List.append_assoc] at hsay ⊢
    obtain ⟨u, hu, hread⟩ := hs.onShort_shortNames hfs hsay.of_append
    have hshort := (hread _).trans (State.onShort_opt ho [] u)
    rw [State.clustered?, hu.onOpt_none o, List.append_nil] at hshort
    obtain ⟨c, hc⟩ : ∃ c, o.shortName? = some c := ho.exists_shortName
    exact ⟨_, State.tells_of_holding hsay, fun hrest =>
      of_onShort (by simp [hc]) hshort (of_awaiting hvalue hrest)⟩

/-- **Spellings are read as what they say**, one after the other, if that may be said. -/
theorem of_written {ps : List Spelling} (hps : ∀ p ∈ ps, p.IsFor level) (hs : s.Tells is)
    (hsay : Sayable (is ++ said ps)) :
    ∃ u : State, u.Tells (is ++ said ps) ∧ ∀ {rest t out}, ReadsWords level u rest t out →
      ReadsWords level s (written ps ++ rest) t out := by
  induction ps generalizing s is with
  | nil => exact ⟨s, by rwa [said_nil, List.append_nil], fun hrest => hrest⟩
  | cons p ps ih =>
    obtain ⟨hp, hrest⟩ := List.forall_mem_cons.mp hps
    rw [said_cons, ← List.append_assoc] at hsay ⊢
    obtain ⟨u, hu, hreadp⟩ := of_spelling hp hs hsay.of_append
    obtain ⟨v, hv, hreadps⟩ := ih hrest hu hsay
    refine ⟨v, hv, fun hread => ?_⟩
    rw [written_cons, List.append_assoc]
    exact hreadp (hreadps hread)

end ReadsWords

/-! ## 4. What is read is written -/

namespace State

variable {s u : State} {level : Level} {is : List Item}

/-- A word holds a value exactly if it is more than the name in front. -/
theorem attached?_cases (cs : List Char) :
    (attached? cs = none ∧ cs = cs.takeWhile (· ≠ '=')) ∨
      ∃ value : String, attached? cs = some value ∧
        cs = cs.takeWhile (· ≠ '=') ++ '=' :: value.toList := by
  have hsplit := List.takeWhile_append_dropWhile (p := fun c => decide (c ≠ '=')) (l := cs)
  have hhead := List.head?_dropWhile_not (fun c => decide (c ≠ '=')) cs
  unfold attached?
  cases hrest : cs.dropWhile (· ≠ '=') with
  | nil =>
    rw [hrest, List.append_nil] at hsplit
    exact Or.inl ⟨rfl, hsplit.symm⟩
  | cons c r =>
    rw [hrest] at hsplit hhead
    have hc : c = '=' := Decidable.not_not.mp (of_decide_eq_false hhead)
    rw [hc] at hsplit
    refine Or.inr ⟨_, rfl, ?_⟩
    rw [String.toList_ofList]
    exact hsplit.symm

/-- A value that is joined to a short name is joined to it in one of two ways. -/
theorem of_clustered? {r : List Char} {value : String} (h : clustered? r = some value) :
    ∃ equals : Bool, (equals = false → value ≠ "" ∧ value.toList.head? ≠ some '=') ∧
      r = if equals then '=' :: value.toList else value.toList := by
  cases r with
  | nil => cases h
  | cons c r =>
    by_cases hc : c = '='
    · simp only [clustered?, if_pos hc] at h
      cases h
      exact ⟨true, fun heq => absurd heq.symm Bool.false_ne_true,
        by rw [hc, String.toList_ofList]; rfl⟩
    · simp only [clustered?, if_neg hc] at h
      cases h
      refine ⟨false, fun _ => ⟨fun hempty => ?_, fun hhead => ?_⟩, String.toList_ofList.symm⟩
      · have hnil := congrArg String.toList hempty
        rw [String.toList_ofList] at hnil
        cases hnil
      · rw [String.toList_ofList] at hhead
        exact hc (Option.some.inj hhead)

/-- A word of short names that is read holds flags, and then perhaps an option. -/
theorem Tells.of_onShort (hs : s.Tells is) {cs : List Char} (h : s.onShort level cs = .ok u) :
    ∃ fs : List Flag, (∀ f ∈ fs, Spelling.IsShort level (.flag f)) ∧
      ∃ v : State, v.Tells (is ++ fs.map .flag) ∧
        (cs = shortNames fs ∧ u = v ∨
          ∃ o r, Spelling.IsShort level (.opt o) ∧
            cs = shortNames fs ++ o.shortName?.toList ++ r ∧
            v.onOpt o (clustered? r) = .ok u) := by
  induction cs generalizing s is with
  | nil =>
    cases h
    exact ⟨[], List.forall_mem_nil _, _, by rwa [List.map_nil, List.append_nil], Or.inl ⟨rfl, rfl⟩⟩
  | cons c r ih =>
    unfold onShort at h
    split at h
    · cases h
    · next o ho =>
      obtain ⟨hknown, hc⟩ := Name.of_ofShort? ho
      have hname : o.shortName? = some c := hc
      refine ⟨[], List.forall_mem_nil _, s, by rwa [List.map_nil, List.append_nil],
        Or.inr ⟨o, r, ⟨hknown, by rw [hc]; rfl⟩, by rw [hname]; rfl, h⟩⟩
    · next f hf =>
      obtain ⟨hknown, hc⟩ := Name.of_ofShort? hf
      split at h
      · cases h
      · next t ht =>
        obtain ⟨hsay, rfl⟩ := hs.onFlag_eq_ok_iff.mp ht
        obtain ⟨fs, hfs, v, hv, hend⟩ := ih (tells_of_none hsay) h
        refine ⟨f :: fs, List.forall_mem_cons.mpr ⟨⟨hknown, by rw [hc]; rfl⟩, hfs⟩, v, ?_, ?_⟩
        · rwa [List.map_cons, List.append_cons]
        · rw [shortNames_cons hc]
          rcases hend with ⟨rfl, rfl⟩ | ⟨o, r', ho, rfl, hopt⟩
          · exact Or.inl ⟨rfl, rfl⟩
          · exact Or.inr ⟨o, r', ho, rfl, hopt⟩

end State

/-- **Where a word leads**: it is a spelling of its own, or the first half of one whose value has
    still to come. -/
inductive Leads (level : Level) (word : String) (is : List Item) : State → Prop
  | whole (p : Spelling) (u : State) (hp : p.IsFor level) (hwords : p.words = [word])
      (hu : u.Tells (is ++ p.items)) : Leads level word is u
  | half (p : String → Spelling) (js : List Item) (o : Opt)
      (hp : ∀ value, isValue value = true → (p value).IsFor level)
      (hwords : ∀ value, (p value).words = [word, value])
      (hitems : ∀ value, (p value).items = js ++ [.opt o value]) (hsay : Sayable (is ++ js)) :
      Leads level word is ⟨Given.ofItems (is ++ js), .awaiting o⟩

section

variable {level : Level} {s t u : State} {is : List Item} {word : String}

/-- A word with two dashes in front that is read is a spelling, or half of one. -/
theorem leads_of_onLong {name : List Char} (hs : s.Tells is)
    (hword : word.toList = '-' :: '-' :: name) (h : s.onLong level name = .ok u) :
    Leads level word is u := by
  obtain rfl : word = String.ofList ('-' :: '-' :: name) := by rw [← hword, String.ofList_toList]
  unfold State.onLong at h
  dsimp only at h
  split at h
  · cases h
  · cases h
  · next f hf hnone =>
    obtain ⟨hknown, hname⟩ := Name.of_ofLong? hf
    obtain ⟨hsay, rfl⟩ := hs.onFlag_eq_ok_iff.mp h
    rcases State.attached?_cases name with ⟨_, hall⟩ | ⟨_, hsome, _⟩
    · refine .whole (.long f) _ hknown ?_ (State.tells_of_none hsay)
      rw [hall, hname]
      rfl
    · rw [hnone] at hsome
      cases hsome
  · next o ho =>
    obtain ⟨hknown, hname⟩ := Name.of_ofLong? ho
    rcases State.attached?_cases name with ⟨hnone, hall⟩ | ⟨value, hsome, hall⟩
    · rw [hnone, hs.onOpt_none] at h
      cases h
      have hhalf : Leads level (String.ofList ('-' :: '-' :: name)) is _ :=
        .half (.longThen o) [] o (fun value hvalue => ⟨hknown, hvalue⟩)
          (fun value => by rw [hall, hname]; rfl) (fun value => rfl)
          (by rw [List.append_nil]; exact hs.sayable)
      rwa [List.append_nil] at hhalf
    · rw [hsome] at h
      obtain ⟨hsay, rfl⟩ := hs.onOpt_some_eq_ok_iff.mp h
      refine .whole (.longWith o value) _ hknown ?_ (State.tells_of_none hsay)
      rw [hall, hname]
      rfl

/-- A word with one dash in front that is read is a spelling, or half of one. -/
theorem leads_of_onShort {names : List Char} (hs : s.Tells is) (hne : names ≠ [])
    (hword : word.toList = '-' :: names) (h : s.onShort level names = .ok u) :
    Leads level word is u := by
  obtain rfl : word = String.ofList ('-' :: names) := by rw [← hword, String.ofList_toList]
  obtain ⟨fs, hfs, v, hv, ⟨rfl, rfl⟩ | ⟨o, r, ho, rfl, hopt⟩⟩ := hs.of_onShort h
  · cases fs with
    | nil => exact absurd rfl hne
    | cons f fs => exact .whole (.short f fs) _ hfs rfl hv
  · cases hr : State.clustered? r with
    | none =>
      cases r with
      | cons => cases hr
      | nil =>
        rw [hr, hv.onOpt_none] at hopt
        cases hopt
        refine .half (.shortThen fs o) (fs.map .flag) o (fun value hvalue => ⟨hfs, ho, hvalue⟩)
          (fun value => ?_) (fun value => rfl) hv.sayable
        rw [List.append_nil]
        rfl
    | some value =>
      obtain ⟨equals, hvalue, rfl⟩ := State.of_clustered? hr
      rw [hr] at hopt
      obtain ⟨hsay, rfl⟩ := hv.onOpt_some_eq_ok_iff.mp hopt
      refine .whole (.shortWith fs o equals value) _ ⟨hfs, ho, hvalue⟩ rfl ?_
      rw [Spelling.items, ← List.append_assoc]
      exact State.tells_of_none hsay

/-- How a level can end. -/
inductive Ends (level : Level) : List String → Option (List String) → Prop
  | done : Ends level [] none
  | closed : Ends level [dashes] none
  | subcommand (rest : List String) (hlevel : level = .program) :
      Ends level (initWord :: rest) (some rest)

/-- A reading that comes to an end has looked at what was pending, unless its value had still to
    come. -/
theorem ReadsWords.exists_settle {ws : List String} {out : Option (List String)} {g : Given}
    (h : ReadsWords level s ws t out) (ht : t.settle = .ok g) (hs : s.awaits? = none) :
    ∃ g, s.settle = .ok g := by
  cases h with
  | done | closed | subcommand => exact ⟨g, ht⟩
  | long _ h => exact State.exists_settle_of_onLong h
  | short _ _ h => exact State.exists_settle_of_onShort h
  | value hawaits =>
    rw [hs] at hawaits
    cases hawaits

/-- An option that is awaited is followed by its value. -/
theorem ReadsWords.exists_value {ws : List String} {out : Option (List String)} {g : Given}
    {o : Opt} (h : ReadsWords level ⟨Given.ofItems is, .awaiting o⟩ ws t out) (ht : t.settle = .ok g)
    (hsay : Sayable is) :
    ∃ value rest, ws = value :: rest ∧ isValue value = true ∧ Sayable (is ++ [.opt o value]) ∧
      ReadsWords level ⟨Given.ofItems is, .holding o value⟩ rest t out := by
  cases h with
  | done | closed => cases ht
  | subcommand _ rest hlevel hawaits => cases hawaits
  | long _ h =>
    obtain ⟨_, hsettle⟩ := State.exists_settle_of_onLong h
    cases hsettle
  | short _ _ h =>
    obtain ⟨_, hsettle⟩ := State.exists_settle_of_onShort h
    cases hsettle
  | value hawaits hvalue hrest =>
    cases hawaits
    obtain ⟨_, hsettle⟩ := hrest.exists_settle ht rfl
    exact ⟨_, _, rfl, hvalue, ((Given.giveOpt_ofItems hsay).mp hsettle).1, hrest⟩

/-- **Only spellings are read**, and what they say is what is read. -/
theorem ReadsWords.exists_written {ws : List String} {out : Option (List String)} {g : Given}
    (h : ReadsWords level s ws t out) (hs : s.Tells is) (ht : t.settle = .ok g) :
    ∃ ps tail, ws = written ps ++ tail ∧ Ends level tail out ∧ (∀ p ∈ ps, p.IsFor level) ∧
      Sayable (is ++ said ps) ∧ g = Given.ofItems (is ++ said ps) := by
  -- a spelling may take two words, so the induction is on how many there are
  induction hn : ws.length using Nat.strongRecOn generalizing s is ws with
  | ind n ih =>
    have hend {tail : List String} (htail : Ends level tail out) (hst : s = t) :
        ∃ ps tail', tail = written ps ++ tail' ∧ Ends level tail' out ∧
          (∀ p ∈ ps, p.IsFor level) ∧ Sayable (is ++ said ps) ∧
          g = Given.ofItems (is ++ said ps) := by
      subst hst
      refine ⟨[], tail, rfl, htail, List.forall_mem_nil _, ?_⟩
      rw [said_nil, List.append_nil]
      exact ⟨hs.sayable, Except.ok.inj (ht.symm.trans hs.settled)⟩
    have hnext {word : String} {rest : List String} {u : State} (hws : ws = word :: rest)
        (hleads : Leads level word is u) (hrest : ReadsWords level u rest t out) :
        ∃ ps tail, ws = written ps ++ tail ∧ Ends level tail out ∧ (∀ p ∈ ps, p.IsFor level) ∧
          Sayable (is ++ said ps) ∧ g = Given.ofItems (is ++ said ps) := by
      subst hws
      rw [List.length_cons] at hn
      cases hleads with
      | whole p u hp hwords hu =>
        obtain ⟨ps, tail, rfl, htail, hps, hsay⟩ := ih _ (by omega) hrest hu rfl
        refine ⟨p :: ps, tail, ?_, htail, List.forall_mem_cons.mpr ⟨hp, hps⟩, ?_⟩
        · rw [written_cons, hwords]
          rfl
        · rwa [said_cons, ← List.append_assoc]
      | half p js o hp hwords hitems hsayjs =>
        obtain ⟨value, rest', rfl, hvalue, hsayo, hrest'⟩ := hrest.exists_value ht hsayjs
        rw [List.length_cons] at hn
        obtain ⟨ps, tail, rfl, htail, hps, hsay⟩ :=
          ih _ (by omega) hrest' (State.tells_of_holding hsayo) rfl
        refine ⟨p value :: ps, tail, ?_, htail, List.forall_mem_cons.mpr ⟨hp value hvalue, hps⟩, ?_⟩
        · rw [written_cons, hwords]
          rfl
        · rwa [said_cons, hitems, ← List.append_assoc, ← List.append_assoc]
    cases h with
    | done => exact hend .done rfl
    | closed => exact hend .closed rfl
    | subcommand _ rest hlevel hawaits => exact hend (.subcommand rest hlevel) rfl
    | long hword h hrest => exact hnext rfl (leads_of_onLong hs hword h) hrest
    | short hword hc h hrest =>
      exact hnext rfl (leads_of_onShort hs (List.cons_ne_nil _ _) hword h) hrest
    | value hawaits =>
      rw [hs.awaits?] at hawaits
      cases hawaits

end

end SuiteDriver.CommandLine
