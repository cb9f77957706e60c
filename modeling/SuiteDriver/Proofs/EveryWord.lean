import SuiteDriver.Proofs.Arrangements

/-!
# Every word is accounted for

A command line that is accepted is nothing but spellings: each word belongs to one of them, is the
subcommand, or is the pair of dashes at the end. What is read from it is what the spellings write,
level by level, and no more.

* `Arrangement.Accounts`: what is read is what is written, at each level;
* `Arrangement.accounts_levels`: it is so for every arrangement that may be said;
* `parseLevels_accounts_for_words`: so nothing is dropped or invented, and what no arrangement
  writes is not accepted.
-/

namespace SuiteDriver.CommandLine

/-! ## 1. What is read at a level -/

namespace Given

/-- The value of an option, as a text. -/
def value? (g : Given) : Opt → Option String
  | .lang => g.language
  | .projectDir => g.projectDir
  | .config => g.config
  | .variant => g.variant.map Variant.name

/-- Whether a flag is set. -/
def isSet (g : Given) : Flag → Bool
  | .verbose => g.verbose
  | .dryRun => g.dryRun
  | .force => g.force
  | .help | .version => false

theorem value?_ofItems {is : List Item} (h : Sayable is) (o : Opt) :
    (ofItems is).value? o = valueOf? o is := by
  cases o with
  | lang | projectDir | config => rfl
  | variant =>
    show ((valueOf? .variant is).bind Variant.ofName?).map Variant.name = _
    cases hvalue : valueOf? .variant is with
    | none => rfl
    | some name =>
      have hsome : (Variant.ofName? name).isSome := h.each _ (mem_of_valueOf? hvalue)
      obtain ⟨v, hv⟩ := Option.isSome_iff_exists.mp hsome
      rw [Option.bind_some, hv, Option.map_some, Variant.ofName?_eq_some_iff.mp hv]

theorem isSet_ofItems {is : List Item} (h : Sayable is) (f : Flag) :
    (ofItems is).isSet f = true ↔ .flag f ∈ is := by
  cases f with
  | verbose | dryRun | force => exact decide_eq_true_iff
  | help => exact ⟨nofun, fun hmem => absurd rfl (h.each _ hmem).1⟩
  | version => exact ⟨nofun, fun hmem => absurd rfl (h.each _ hmem).2⟩

theorem value?_inherit (g outer : Given) (o : Opt) :
    (g.inherit outer).value? o =
      if Name.IsKnown .init (.opt o) then (g.value? o).or (outer.value? o) else g.value? o := by
  cases o <;> rfl

theorem value?_adopt (g other : Given) (o : Opt) :
    (g.adopt other).value? o =
      if Name.IsKnown .init (.opt o) then other.value? o else g.value? o := by
  cases o <;> rfl

theorem isSet_inherit (g outer : Given) (f : Flag) :
    (g.inherit outer).isSet f = (g.isSet f || (f == .verbose && outer.isSet f)) := by
  cases f <;> simp [isSet, inherit]

theorem isSet_adopt (g other : Given) (f : Flag) :
    (g.adopt other).isSet f = if f = .verbose then other.isSet f else g.isSet f := by
  cases f <;> rfl

end Given

namespace Levels

/-- What is read at a level, if the level is there. -/
def at? (ls : Levels) : Level → Option Given
  | .program => some ls.outer
  | .init => ls.inner

variable {outer g : Given} {inner : Option Given} {level : Level}

/-- Both levels know two flags, of which one never lets the reading go on. -/
theorem eq_of_known {f : Flag} (hp : Name.IsKnown .program (.flag f))
    (hi : Name.IsKnown .init (.flag f)) : f = .verbose ∨ f = .help := by
  revert hp hi
  cases f <;> decide

/-- Of two texts for an option that both levels know, the later one is read at both. -/
theorem value?_share (hg : (share outer inner).at? level = some g) {o : Opt}
    (hinner : ¬ Name.IsKnown .init (.opt o) → (inner.getD .nothing).value? o = none) :
    g.value? o =
      if Name.IsKnown level (.opt o) then
        ((inner.getD .nothing).value? o).or (outer.value? o) else none := by
  have hprogram : Name.IsKnown .program (.opt o) := by cases o <;> decide
  cases inner with
  | none =>
    have hnothing : Given.nothing.value? o = none := by cases o <;> rfl
    cases level with
    | init => cases hg
    | program =>
      obtain rfl : outer = g := Option.some.inj hg
      rw [if_pos hprogram, Option.getD_none, hnothing, Option.none_or]
  | some k =>
    rw [Option.getD_some] at hinner ⊢
    cases level with
    | program =>
      obtain rfl : outer.adopt (k.inherit outer) = g := Option.some.inj hg
      rw [if_pos hprogram, Given.value?_adopt, Given.value?_inherit]
      split
      · rfl
      · next ho => rw [hinner ho, Option.none_or]
    | init =>
      obtain rfl : k.inherit outer = g := Option.some.inj hg
      rw [Given.value?_inherit]
      split
      · rfl
      · next ho => exact hinner ho

/-- A flag that both levels know is read at both, wherever it is written. -/
theorem isSet_share (hg : (share outer inner).at? level = some g) {f : Flag}
    (houter : outer.isSet f = true → Name.IsKnown .program (.flag f))
    (hinner : (inner.getD .nothing).isSet f = true → Name.IsKnown .init (.flag f)) :
    g.isSet f = true ↔ Name.IsKnown level (.flag f) ∧
      (outer.isSet f = true ∨ (inner.getD .nothing).isSet f = true) := by
  cases inner with
  | none =>
    have hnothing : Given.nothing.isSet f = false := by cases f <;> rfl
    cases level with
    | init => cases hg
    | program =>
      obtain rfl : outer = g := Option.some.inj hg
      rw [Option.getD_none, hnothing]
      simp only [Bool.false_eq_true, or_false]
      exact ⟨fun h => ⟨houter h, h⟩, And.right⟩
  | some k =>
    rw [Option.getD_some] at hinner ⊢
    by_cases hf : f = .verbose
    · subst hf
      have hboth : g.isSet .verbose = (k.isSet .verbose || outer.isSet .verbose) := by
        cases level <;> cases hg <;> rfl
      have hknown : Name.IsKnown level (.flag .verbose) := by cases level <;> decide
      rw [hboth, Bool.or_eq_true, and_iff_right hknown, or_comm]
    · cases level with
      | program =>
        obtain rfl : outer.adopt (k.inherit outer) = g := Option.some.inj hg
        rw [Given.isSet_adopt, if_neg hf]
        refine ⟨fun h => ⟨houter h, Or.inl h⟩, fun ⟨hp, h⟩ => h.resolve_right fun hk => ?_⟩
        rcases eq_of_known hp (hinner hk) with rfl | rfl
        · exact hf rfl
        · cases hk
      | init =>
        obtain rfl : k.inherit outer = g := Option.some.inj hg
        rw [Given.isSet_inherit, beq_false_of_ne hf, Bool.false_and, Bool.or_false]
        refine ⟨fun h => ⟨hinner h, Or.inr h⟩, fun ⟨hi, h⟩ => h.resolve_left fun ho => ?_⟩
        rcases eq_of_known (houter ho) hi with rfl | rfl
        · exact hf rfl
        · cases ho

end Levels

/-! ## 2. What is written counts -/

namespace Arrangement

/-- **The text that counts for an option**: the one written after the subcommand, else the one
    before it. -/
def Writes (w : Arrangement) (o : Opt) (value : String) : Prop :=
  .opt o value ∈ said (w.inner.getD []) ∨
    .opt o value ∈ said w.outer ∧ ∀ later, .opt o later ∉ said (w.inner.getD [])

/-- **What is read is what is written**: a level has a value exactly if it knows the option and the
    text that counts for it is that value, and a flag exactly if it knows it and it is written. -/
structure Accounts (w : Arrangement) (ls : Levels) : Prop where
  subcommand : (ls.at? .init).isSome = w.inner.isSome
  value : ∀ level g, ls.at? level = some g → ∀ o value,
    g.value? o = some value ↔ Name.IsKnown level (.opt o) ∧ w.Writes o value
  flag : ∀ level g, ls.at? level = some g → ∀ f,
    g.isSet f = true ↔ Name.IsKnown level (.flag f) ∧ .flag f ∈ w.items

variable {w : Arrangement}

theorem writes_iff (h : w.IsSayable) {o : Opt} {value : String} :
    w.Writes o value ↔
      (valueOf? o (said (w.inner.getD []))).or (valueOf? o (said w.outer)) = some value := by
  unfold Writes
  simp only [← h.inner.valueOf?_eq_some_iff, ← h.outer.valueOf?_eq_some_iff]
  cases valueOf? o (said (w.inner.getD [])) <;> simp

/-- An inner level that is not there is as good as one that says nothing. -/
theorem getD_map_ofItems (inner : Option (List Spelling)) :
    (inner.map fun ps => Given.ofItems (said ps)).getD .nothing =
      Given.ofItems (said (inner.getD [])) := by
  cases inner <;> rfl

/-- **What may be said is read as it is written.** -/
theorem accounts_levels (hplaced : w.IsPlaced) (hsay : w.IsSayable) : w.Accounts w.levels where
  subcommand := by
    unfold levels
    cases w.inner <;> rfl
  value level g hg o value := by
    have hunknown : ¬ Name.IsKnown .init (.opt o) → valueOf? o (said (w.inner.getD [])) = none :=
      valueOf?_said_eq_none hplaced.inner
    rw [Levels.value?_share hg, getD_map_ofItems, Given.value?_ofItems hsay.outer,
      Given.value?_ofItems hsay.inner, writes_iff hsay]
    · split
      · next ho => rw [and_iff_right ho]
      · next ho => exact ⟨nofun, fun h => absurd h.1 ho⟩
    · rwa [getD_map_ofItems, Given.value?_ofItems hsay.inner]
  flag level g hg f := by
    have houter := Given.isSet_ofItems hsay.outer f
    have hinner := Given.isSet_ofItems hsay.inner f
    rw [Levels.isSet_share hg, getD_map_ofItems, houter, hinner]
    · rw [items, List.mem_append]
    · exact fun h => isKnown_of_mem_said hplaced.outer (houter.mp h)
    · rw [getD_map_ofItems]
      exact fun h => isKnown_of_mem_said hplaced.inner (hinner.mp h)

end Arrangement

/-! ## 3. Command lines -/

/-- **The words of a command line that is accepted are accounted for.** A command line is accepted
    exactly if its words are those of an arrangement: spellings at levels that know them, nothing
    said twice at one level, at most one subcommand, and nothing after the dashes. Then every level
    has the values and flags that are written, of two texts for an option the later one, and nothing
    that is not written. All other words are answered with help or the version, or refused. -/
theorem parseLevels_accounts_for_words (words : List String) :
    ((∃ ls, parseLevels words = .ok ls) ↔
      ∃ w : Arrangement, w.words = words ∧ w.IsPlaced ∧ w.IsSayable) ∧
    (∀ ls, parseLevels words = .ok ls → parse words = .ok ls.args ∧
      ∀ w : Arrangement, w.words = words → w.IsPlaced → w.IsSayable → w.Accounts ls) ∧
    ((∀ w : Arrangement, w.words = words → w.IsPlaced → ¬ w.IsSayable) →
      (∃ page, parse words = .error (.help page)) ∨ parse words = .error .version ∨
        ∃ m, parse words = .error (.misuse m)) := by
  have haccepted : (∃ ls, parseLevels words = .ok ls) ↔
      ∃ w : Arrangement, w.words = words ∧ w.IsPlaced ∧ w.IsSayable := by
    constructor
    · rintro ⟨ls, hls⟩
      obtain ⟨w, hplaced, hsay, hwords, -⟩ := parseLevels_eq_ok_iff.mp hls
      exact ⟨w, hwords, hplaced, hsay⟩
    · rintro ⟨w, rfl, hplaced, hsay⟩
      exact ⟨w.levels, parseLevels_words hplaced hsay⟩
  refine ⟨haccepted, fun ls hls => ⟨parse_of_levels hls, ?_⟩, fun hnone => ?_⟩
  · rintro w rfl hplaced hsay
    obtain rfl : w.levels = ls :=
      Except.ok.inj ((parseLevels_words hplaced hsay).symm.trans hls)
    exact Arrangement.accounts_levels hplaced hsay
  · cases hparse : parse words with
    | ok a =>
      obtain ⟨w, hplaced, hsay, hwords, -⟩ := parse_eq_ok_iff.mp hparse
      exact absurd hsay (hnone w hwords hplaced)
    | error stop =>
      cases stop with
      | help page => exact Or.inl ⟨page, rfl⟩
      | version => exact Or.inr (Or.inl rfl)
      | misuse m => exact Or.inr (Or.inr ⟨m, rfl⟩)

/-- A cluster with a value that starts like what may stand in front of it, a language at both levels
    and dashes at the end; and two languages at one level. -/
theorem parseLevels_accounts_for_clustered_words :
    let words := ["-vc==y", "--lang=en", "init", "--lang", "zh-CN", "--force", "--"]
    let ls : Levels :=
      ⟨⟨some "zh-CN", none, some "=y", none, true, false, false⟩,
        some ⟨some "zh-CN", none, none, none, true, false, true⟩⟩
    (parseLevels words = .ok ls ∧
      Arrangement.Accounts
        ⟨[.shortWith [.verbose] .config true "=y", .longWith .lang "en"],
          some [.longThen .lang "zh-CN", .long .force], true⟩ ls) ∧
    ((∃ page, parse ["--lang=en", "--lang=en"] = .error (.help page)) ∨
      parse ["--lang=en", "--lang=en"] = .error .version ∨
        ∃ m, parse ["--lang=en", "--lang=en"] = .error (.misuse m)) := by
  intro words ls
  have hls : parseLevels words = .ok ls := rfl
  have haccounts := ((parseLevels_accounts_for_words words).2.1 ls hls).2
  refine ⟨⟨hls, haccounts _ (by decide) (by decide) ⟨by decide, by decide⟩⟩, ?_⟩
  obtain ⟨haccepted, -, hrefused⟩ := parseLevels_accounts_for_words ["--lang=en", "--lang=en"]
  refine hrefused fun w hwords hplaced hsay => ?_
  obtain ⟨ls, hls⟩ := haccepted.mpr ⟨w, hwords, hplaced, hsay⟩
  cases hls

end SuiteDriver.CommandLine
