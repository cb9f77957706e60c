import SuiteDriver.Proofs.Spellings

/-!
# The command lines that are accepted

They are the arrangements of spellings in which every name stands where it is known and nothing is
said twice at one level. So everything about the accepted command lines is read off arrangements,
and every way to say what is asked for is understood.

* `parseLevels_eq_ok_iff`, `parse_eq_ok_iff`: the accepted command lines are the arrangements;
* `Arrangement.args_eq`: what a command line asks for, item by item;
* `parse_arrangement`: what is asked for is understood in any order, spelling and placement.
-/

namespace SuiteDriver.CommandLine

/-! ## 1. The command lines that are accepted -/

theorem ReadsWords.of_closing (level : Level) (s : State) (closed : Bool) :
    ReadsWords level s (closing closed) s none := by
  cases closed with
  | true => exact .closed s
  | false => exact .done s

/-- Where no subcommand follows, nothing but dashes ends a level. -/
theorem Ends.exists_closing {level : Level} {tail : List String} {out : Option (List String)}
    (h : Ends level tail out) (hout : out = none ∨ level = .init) :
    ∃ closed, tail = closing closed := by
  cases h with
  | done => exact ⟨false, rfl⟩
  | closed => exact ⟨true, rfl⟩
  | subcommand rest hlevel =>
    rcases hout with hout | hout
    · cases hout
    · rw [hlevel] at hout
      cases hout

/-- What an arrangement writes is read as what it says. -/
theorem parseLevels_words {w : Arrangement} (hplaced : w.IsPlaced) (hsay : w.IsSayable) :
    parseLevels w.words = .ok w.levels := by
  obtain ⟨outer, inner, closed⟩ := w
  obtain ⟨u, hu, hread⟩ := ReadsWords.of_written hplaced.outer State.tells_initial hsay.outer
  rw [List.nil_append] at hu
  cases inner with
  | none =>
    unfold parseLevels
    rw [Arrangement.words, (hread (.of_closing _ u closed)).readLevel]
    dsimp only
    rw [hu.settled]
    rfl
  | some ps =>
    obtain ⟨v, hv, hreadps⟩ := ReadsWords.of_written hplaced.inner State.tells_initial hsay.inner
    rw [List.nil_append] at hv
    have hinner : ReadsWords .init State.initial (written ps ++ closing closed) v none :=
      hreadps (.of_closing _ v closed)
    unfold parseLevels
    rw [Arrangement.words, (hread (.subcommand u _ rfl hu.awaits?)).readLevel]
    dsimp only
    rw [hinner.readLevel]
    dsimp only
    rw [hv.settled, hu.settled]
    rfl

/-- **The command lines that are accepted are the arrangements of spellings** in which every name
    stands where it is known and nothing is said twice at one level; and their levels say what the
    spellings say. -/
theorem parseLevels_eq_ok_iff {words : List String} {ls : Levels} :
    parseLevels words = .ok ls ↔
      ∃ w : Arrangement, w.IsPlaced ∧ w.IsSayable ∧ w.words = words ∧ w.levels = ls := by
  constructor
  · intro h
    unfold parseLevels at h
    split at h
    · cases h
    · next outer houter =>
      split at h
      · cases h
      · next g hg =>
        cases h
        obtain ⟨ps, tail, rfl, htail, hps, hsay, rfl⟩ :=
          (readsWords_of_readLevel houter).exists_written State.tells_initial hg
        obtain ⟨closed, rfl⟩ := htail.exists_closing (Or.inl rfl)
        rw [List.nil_append] at hsay
        exact ⟨⟨ps, none, closed⟩, ⟨hps, List.forall_mem_nil _⟩, ⟨hsay, Sayable.nil⟩, rfl, rfl⟩
    · next outer rest houter =>
      split at h
      · cases h
      · next inner _ hinner =>
        split at h
        · cases h
        · next k hk =>
          split at h
          · cases h
          · next g hg =>
            cases h
            obtain ⟨ps, tail, rfl, htail, hps, hsay, rfl⟩ :=
              (readsWords_of_readLevel houter).exists_written State.tells_initial hg
            obtain ⟨qs, tail', rfl, htail', hqs, hsay', rfl⟩ :=
              (readsWords_of_readLevel hinner).exists_written State.tells_initial hk
            obtain ⟨closed, rfl⟩ := htail'.exists_closing (Or.inr rfl)
            rw [List.nil_append] at hsay hsay'
            cases htail
            exact ⟨⟨ps, some qs, closed⟩, ⟨hps, hqs⟩, ⟨hsay, hsay'⟩, rfl, rfl⟩
  · rintro ⟨w, hplaced, hsay, rfl, rfl⟩
    exact parseLevels_words hplaced hsay

theorem parse_of_levels {words : List String} {ls : Levels} (h : parseLevels words = .ok ls) :
    parse words = .ok ls.args := by
  unfold parse
  rw [h]

/-- What a command line asks for is what its spellings say. -/
theorem parse_eq_ok_iff {words : List String} {a : Args} :
    parse words = .ok a ↔
      ∃ w : Arrangement, w.IsPlaced ∧ w.IsSayable ∧ w.words = words ∧ w.args = a := by
  constructor
  · intro h
    unfold parse at h
    split at h
    · cases h
    · next ls hls =>
      cases h
      obtain ⟨w, hplaced, hsay, hwords, rfl⟩ := parseLevels_eq_ok_iff.mp hls
      exact ⟨w, hplaced, hsay, hwords, rfl⟩
  · rintro ⟨w, hplaced, hsay, rfl, rfl⟩
    exact parse_of_levels (parseLevels_words hplaced hsay)

/-! ## 2. What the levels say -/

/-- Spellings that stand at a level say what the level knows. -/
theorem Spelling.IsFor.isKnown {level : Level} {p : Spelling} (h : p.IsFor level) {i : Item}
    (hi : i ∈ p.items) : i.name.IsKnown level := by
  have hflags {fs : List Flag} (hfs : ∀ f ∈ fs, IsShort level (.flag f))
      (hmem : i ∈ fs.map .flag) : i.name.IsKnown level := by
    obtain ⟨f, hf, rfl⟩ := List.mem_map.mp hmem
    exact (hfs f hf).1
  cases p with
  | long f =>
    cases List.mem_singleton.mp hi
    exact h
  | longWith o value =>
    cases List.mem_singleton.mp hi
    exact h
  | longThen o value =>
    cases List.mem_singleton.mp hi
    exact h.1
  | short f fs => exact hflags h hi
  | shortWith fs o equals value | shortThen fs o value =>
    rcases List.mem_append.mp hi with hmem | hmem
    · exact hflags h.1 hmem
    · cases List.mem_singleton.mp hmem
      exact h.2.1.1

theorem isKnown_of_mem_said {level : Level} {ps : List Spelling} (h : ∀ p ∈ ps, p.IsFor level)
    {i : Item} (hi : i ∈ said ps) : i.name.IsKnown level := by
  obtain ⟨p, hp, hmem⟩ := List.mem_flatMap.mp hi
  exact (h p hp).isKnown hmem

/-- What a level does not know is not said there. -/
theorem valueOf?_said_eq_none {level : Level} {ps : List Spelling} (h : ∀ p ∈ ps, p.IsFor level)
    {o : Opt} (ho : ¬ Name.IsKnown level (.opt o)) : valueOf? o (said ps) = none := by
  refine valueOf?_eq_none fun hmem => ?_
  obtain ⟨i, hi, hname⟩ := List.mem_map.mp hmem
  exact ho (hname ▸ isKnown_of_mem_said h hi)

namespace Arrangement

variable {w : Arrangement}

/-- What a command line asks for, item by item. -/
theorem args_eq (w : Arrangement) :
    w.args =
      { language := (valueOf? .lang (said (w.inner.getD []))).or (valueOf? .lang (said w.outer))
        verbose := decide (.flag .verbose ∈ said (w.inner.getD []) ++ said w.outer)
        projectDir :=
          (valueOf? .projectDir (said (w.inner.getD []))).or (valueOf? .projectDir (said w.outer))
        config := valueOf? .config (said w.outer)
        variant := (valueOf? .variant (said w.outer)).bind Variant.ofName?
        dryRun := decide (.flag .dryRun ∈ said w.outer)
        init := w.inner.map fun ps => decide (.flag .force ∈ said ps) } := by
  obtain ⟨outer, inner, closed⟩ := w
  cases inner with
  | none => rfl
  | some ps =>
    simp [args, levels, Levels.args, Levels.share, Given.adopt, Given.inherit, Given.ofItems,
      Bool.decide_or]

end Arrangement

/-! ## 3. What has to be said -/

namespace Args

variable {a : Args}

theorem opt_mem_items {o : Opt} {value : String} :
    .opt o value ∈ a.items ↔ a.value? o = some value := by
  cases o <;> simp [items]

theorem flag_mem_items {f : Flag} : .flag f ∈ a.items ↔ a.isSet f = true := by
  cases f <;> simp [items, isSet]

/-- Nothing has to be said twice. -/
theorem nodup_items (a : Args) : (a.items.map Item.name).Nodup := by
  have hopts (os : List Opt) :
      ((os.filterMap fun o => (a.value? o).map (Item.opt o)).map Item.name).Sublist
        (os.map .opt) := by
    rw [List.map_filterMap]
    induction os with
    | nil => exact .slnil
    | cons o os ih =>
      cases hvalue : a.value? o with
      | none =>
        rw [List.filterMap_cons_none (by rw [hvalue]; rfl)]
        exact ih.cons _
      | some value =>
        rw [List.filterMap_cons_some (b := .opt o) (by rw [hvalue]; rfl)]
        exact ih.cons_cons _
  have hflags (fs : List Flag) :
      (((fs.filter a.isSet).map Item.flag).map Item.name).Sublist (fs.map .flag) := by
    rw [List.map_map]
    exact List.filter_sublist.map _
  unfold items
  rw [List.map_append]
  exact ((hopts _).append (hflags _)).nodup (by decide)

/-- What has to be said may be said, unless the configuration is to be the empty text. -/
theorem sayable_items (h : a.config ≠ some "") : Sayable a.items where
  once := a.nodup_items
  each i hi := by
    cases i with
    | flag f =>
      have hset := flag_mem_items.mp hi
      constructor <;>
        · rintro rfl
          cases hset
    | opt o value =>
      have hvalue := opt_mem_items.mp hi
      cases o with
      | lang | projectDir => trivial
      | config =>
        rintro rfl
        exact h hvalue
      | variant =>
        obtain ⟨v, -, rfl⟩ := Option.map_eq_some_iff.mp hvalue
        cases v <;> rfl

end Args

/-! ## 4. Every way to say it -/

namespace Arrangement

variable {w : Arrangement} {a : Args}

/-- An arrangement of all that has to be said, with the subcommand if that is asked for, asks for
    just this. -/
theorem args_of_items (hplaced : w.IsPlaced)
    (hsay : Sayable (said (w.inner.getD []) ++ said w.outer))
    (hperm : (said (w.inner.getD []) ++ said w.outer).Perm a.items)
    (hinit : w.inner.isSome = a.init.isSome) : w.args = a := by
  have hvalue (o : Opt) :
      (valueOf? o (said (w.inner.getD []))).or (valueOf? o (said w.outer)) = a.value? o := by
    refine Option.ext fun value => ?_
    rw [← valueOf?_append, hsay.valueOf?_eq_some_iff, hperm.mem_iff, Args.opt_mem_items]
  have houter {o : Opt} (ho : ¬ Name.IsKnown .init (.opt o)) :
      valueOf? o (said w.outer) = a.value? o := by
    rw [← hvalue, valueOf?_said_eq_none hplaced.inner ho, Option.none_or]
  have hflag (f : Flag) :
      .flag f ∈ said (w.inner.getD []) ++ said w.outer ↔ a.isSet f = true := by
    rw [hperm.mem_iff, Args.flag_mem_items]
  have hverbose : decide (.flag .verbose ∈ said (w.inner.getD []) ++ said w.outer) = a.verbose :=
    Bool.eq_iff_iff.mpr (decide_eq_true_iff.trans (hflag .verbose))
  have hdryRun : decide (.flag .dryRun ∈ said w.outer) = a.dryRun := by
    have hnot : Item.flag .dryRun ∉ said (w.inner.getD []) := fun hmem =>
      absurd (isKnown_of_mem_said hplaced.inner hmem) (by decide)
    have honly := hflag .dryRun
    rw [List.mem_append, or_iff_right hnot] at honly
    exact Bool.eq_iff_iff.mpr (decide_eq_true_iff.trans honly)
  have hforce : (w.inner.map fun ps => decide (.flag .force ∈ said ps)) = a.init := by
    have hnot : Item.flag .force ∉ said w.outer := fun hmem =>
      absurd (isKnown_of_mem_said hplaced.outer hmem) (by decide)
    have honly := hflag .force
    rw [List.mem_append, or_iff_left hnot] at honly
    cases hi : w.inner with
    | none =>
      rw [hi] at hinit
      exact (Option.not_isSome_iff_eq_none.mp (hinit ▸ Bool.false_ne_true)).symm
    | some ps =>
      rw [hi] at hinit honly
      obtain ⟨force, hforce⟩ := Option.isSome_iff_exists.mp hinit.symm
      have hset : a.isSet .force = force := by
        unfold Args.isSet
        rw [hforce]
        cases force <;> rfl
      rw [hset] at honly
      rw [hforce]
      exact congrArg some (Bool.eq_iff_iff.mpr (decide_eq_true_iff.trans honly))
  have hvariant : (valueOf? .variant (said w.outer)).bind Variant.ofName? = a.variant := by
    rw [houter (by decide)]
    show (a.variant.map Variant.name).bind Variant.ofName? = a.variant
    cases a.variant with
    | none => rfl
    | some v => cases v <;> rfl
  rw [args_eq, hvalue, hvalue, houter (by decide), hvariant, hverbose, hdryRun, hforce]
  rfl

end Arrangement

/-- What is known at both levels is the same at both, once it is handed on. -/
theorem Levels.share_same (outer : Given) (inner : Option Given) :
    ∀ after ∈ (Levels.share outer inner).inner,
      after.language = (Levels.share outer inner).outer.language ∧
        after.verbose = (Levels.share outer inner).outer.verbose ∧
        after.projectDir = (Levels.share outer inner).outer.projectDir := by
  cases inner with
  | none => exact nofun
  | some g =>
    intro after hafter
    cases hafter
    exact ⟨rfl, rfl, rfl⟩

/-- **Whatever is asked for is understood, in whichever way it is said**: the flags and options in
    any order, each in any of its spellings, and what is known at both levels before the subcommand
    or after it. The values are arbitrary texts, but the configuration is not empty; where a value
    is a word by itself, after a long name or a short one, it must look like one. What is known at
    both levels is then the same at both. -/
theorem parse_arrangement (a : Args) (hconfig : a.config ≠ some "") (w : Arrangement)
    (hplaced : w.IsPlaced) (hitems : w.items.Perm a.items)
    (hinit : w.inner.isSome = a.init.isSome) :
    parse w.words = .ok a ∧
    ∃ ls, parseLevels w.words = .ok ls ∧ ls.args = a ∧
      ∀ inner ∈ ls.inner, inner.language = ls.outer.language ∧
        inner.verbose = ls.outer.verbose ∧ inner.projectDir = ls.outer.projectDir := by
  have hperm : (said (w.inner.getD []) ++ said w.outer).Perm a.items :=
    List.perm_append_comm.trans hitems
  have hsay := (Args.sayable_items hconfig).perm hperm
  have hlevels := parseLevels_words hplaced
    ⟨((Args.sayable_items hconfig).perm hitems).of_append, hsay.of_append⟩
  have hargs : w.levels.args = a := Arrangement.args_of_items hplaced hsay hperm hinit
  exact ⟨hargs ▸ parse_of_levels hlevels, w.levels, hlevels, hargs, Levels.share_same _ _⟩

/-- Values that look like options, like the subcommand and like an equals sign, and a flag in front
    of an option in one word. -/
theorem parse_arrangement_of_odd_values :
    parse ["-vc==y", "--lang", "init", "--dry-run", "--variant=compile", "init",
        "--project-dir=--lang", "--force"] =
      .ok ⟨some "init", true, some "--lang", some "=y", some .compile, true, some true⟩ :=
  (parse_arrangement
    ⟨some "init", true, some "--lang", some "=y", some .compile, true, some true⟩ (by decide)
    ⟨[.shortWith [.verbose] .config true "=y", .longThen .lang "init", .long .dryRun,
        .longWith .variant "compile"],
      some [.longWith .projectDir "--lang", .long .force], false⟩
    (by decide) (by decide) rfl).1

end SuiteDriver.CommandLine
