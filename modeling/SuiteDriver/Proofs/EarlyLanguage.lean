import SuiteDriver.Program
import SuiteDriver.Proofs.Arrangements

/-!
# The language that is searched for first

The language is needed before the words are read, so it is searched for among them. `ShowsLanguage`
says what the search comes upon: the value after the first word that is the option alone, and the
value in the first word that has it. It goes by single words and does not know the two levels.

* `ShowsLanguage.requestedLanguage`: the search takes the former, else the latter;
* `requestedLanguage_of_default`: without the subcommand it finds the language that is asked for;
* `requestedLanguage_eq_language_iff`: when it does, for all command lines that are accepted.
-/

namespace SuiteDriver

namespace CommandLine

/-! ## 1. What the search comes upon -/

/-- The option for the language without its value. -/
def languageWord : String := "--lang"

/-- **What the search comes upon among words**: the value after the first word that is the option
    alone, and the value in the first word that has it. -/
structure ShowsLanguage (words : List String) (apart joined : Option String) : Prop where
  absent : apart = none → languageWord ∉ words
  present : ∀ value, apart = some value →
    ∃ before after, words = before ++ languageWord :: value :: after ∧ languageWord ∉ before
  joined : words.findSome? languageOf? = joined

namespace ShowsLanguage

variable {xs ys : List String} {a b j k : Option String}

/-- A word that has nothing to do with the option shows nothing. -/
theorem quiet {word : String} (hword : word ≠ languageWord) (hof : languageOf? word = none) :
    ShowsLanguage [word] none none where
  absent _ := fun hmem => hword (List.mem_singleton.mp hmem).symm
  present _ := nofun
  joined := by rw [List.findSome?_singleton, hof]

theorem nil : ShowsLanguage [] none none := ⟨fun _ => List.not_mem_nil, nofun, rfl⟩

/-- What comes first is found first. -/
theorem append (hx : ShowsLanguage xs a j) (hy : ShowsLanguage ys b k) :
    ShowsLanguage (xs ++ ys) (a.or b) (j.or k) where
  absent hnone hmem := by
    obtain ⟨ha, hb⟩ := Option.or_eq_none_iff.mp hnone
    rcases List.mem_append.mp hmem with hmem | hmem
    · exact hx.absent ha hmem
    · exact hy.absent hb hmem
  present value hvalue := by
    cases ha : a with
    | some v =>
      rw [ha] at hvalue
      cases hvalue
      obtain ⟨before, after, rfl, hbefore⟩ := hx.present value ha
      exact ⟨before, after ++ ys, by rw [List.append_assoc]; rfl, hbefore⟩
    | none =>
      rw [ha, Option.none_or] at hvalue
      obtain ⟨before, after, rfl, hbefore⟩ := hy.present value hvalue
      refine ⟨xs ++ before, after, (List.append_assoc ..).symm, fun hmem => ?_⟩
      rcases List.mem_append.mp hmem with hmem | hmem
      · exact hx.absent ha hmem
      · exact hbefore hmem
  joined := by rw [List.findSome?_append, hx.joined, hy.joined]

/-- The option stands alone exactly if a value after it is come upon. -/
theorem mem_iff (h : ShowsLanguage xs a j) : languageWord ∈ xs ↔ a.isSome := by
  cases ha : a with
  | none => exact ⟨fun hmem => absurd hmem (h.absent ha), nofun⟩
  | some value =>
    obtain ⟨before, after, rfl, -⟩ := h.present value ha
    exact ⟨fun _ => rfl, fun _ => List.mem_append_right _ (List.mem_cons_self ..)⟩

/-- **The search takes the value after the option alone, else the value in its own word.** -/
theorem requestedLanguage (h : ShowsLanguage xs a j) : requestedLanguage xs = a.or j := by
  have hskip {zs : List String} (hz : languageWord ∉ zs) :
      ∀ z ∈ zs, decide (z ≠ "--lang") = true :=
    fun z hmem => decide_eq_true fun hz' => hz ((show languageWord = z from hz'.symm) ▸ hmem)
  unfold CommandLine.requestedLanguage
  cases ha : a with
  | none =>
    rw [List.dropWhile_eq_nil_iff.mpr (hskip (h.absent ha))]
    exact h.joined
  | some value =>
    obtain ⟨before, after, rfl, hbefore⟩ := h.present value ha
    rw [List.dropWhile_append_of_pos (hskip hbefore)]
    rfl

end ShowsLanguage

/-! ## 2. What it comes upon among spellings -/

theorem languageWord_toList : languageWord.toList = ['-', '-', 'l', 'a', 'n', 'g'] := by decide

namespace ShowsLanguage

/-- A word that does not start like the option for the language shows nothing. -/
theorem of_unlike {word : String} (h : ¬ languageWord.toList <+: word.toList) :
    ShowsLanguage [word] none none := by
  refine .quiet ?_ ?_
  · rintro rfl
    exact h (List.prefix_refl _)
  · refine if_neg fun hprefix => h ?_
    have hword : languageWord.toList <+: languageOption := ⟨['='], by decide⟩
    exact hword.trans (List.isPrefixOf_iff_prefix.mp hprefix)

/-- A word that looks like a value shows nothing. -/
theorem of_isValue {word : String} (h : isValue word = true) : ShowsLanguage [word] none none := by
  refine .of_unlike fun ⟨r, hr⟩ => ?_
  unfold isValue at h
  rw [← hr, languageWord_toList] at h
  cases h

/-- A word with a single dash in front shows nothing. -/
theorem of_single_dash {c : Char} (hc : c ≠ '-') (cs : List Char) :
    ShowsLanguage [String.ofList ('-' :: c :: cs)] none none := by
  refine .of_unlike fun ⟨r, hr⟩ => hc ?_
  rw [String.toList_ofList, languageWord_toList] at hr
  exact (List.cons.inj (List.cons.inj hr).2).1.symm

/-- No other long name starts like that of the option for the language. -/
theorem of_longName {n : Name} (hn : n ≠ .opt .lang) (cs : List Char) :
    ShowsLanguage [String.ofList ('-' :: '-' :: n.longName.toList ++ cs)] none none := by
  have hhead : n.longName.toList.head? ≠ some 'l' := by
    cases n with
    | flag f => cases f <;> decide
    | opt o => cases o <;> first | exact absurd rfl hn | decide
  refine .of_unlike fun ⟨r, hr⟩ => hhead ?_
  rw [String.toList_ofList, languageWord_toList] at hr
  have hname : ['l', 'a', 'n', 'g'] ++ r = n.longName.toList ++ cs :=
    (List.cons.inj (List.cons.inj hr).2).2
  have hfirst := congrArg List.head? hname
  rw [List.head?_append_of_ne_nil _ n.longName_chars.1] at hfirst
  exact hfirst.symm

/-- The option alone shows the value after it. -/
theorem of_apart {value : String} (h : isValue value = true) :
    ShowsLanguage [languageWord, value] (some value) none where
  absent := nofun
  present := by
    rintro _ ⟨⟩
    exact ⟨[], [], rfl, List.not_mem_nil⟩
  joined := by
    have hword : languageOf? languageWord = none := by decide
    rw [List.findSome?_cons, hword]
    exact (of_isValue h).joined

/-- The option with its value shows that. -/
theorem of_joined (value : String) :
    ShowsLanguage [String.ofList (languageOption ++ value.toList)] none (some value) where
  absent _ hmem := by
    have hlist := congrArg String.toList (List.mem_singleton.mp hmem)
    rw [String.toList_ofList] at hlist
    have hlength := congrArg List.length hlist
    rw [List.length_append] at hlength
    have hshort : languageWord.toList.length < languageOption.length := by decide
    omega
  present _ := nofun
  joined := by
    have hprefix : languageOption.isPrefixOf (languageOption ++ value.toList) = true :=
      List.isPrefixOf_iff_prefix.mpr (List.prefix_append _ _)
    rw [List.findSome?_singleton, languageOf?, String.toList_ofList, if_pos hprefix,
      List.drop_left, String.ofList_toList]

end ShowsLanguage

namespace Spelling

/-- The language that a spelling names in a word of its own. -/
def apart? : Spelling → Option String
  | longThen .lang value => some value
  | _ => none

/-- The language that a spelling names in the option's word. -/
def joined? : Spelling → Option String
  | longWith .lang value => some value
  | _ => none

variable {level : Level} {p : Spelling}

/-- The short names of flags and of an option after them do not start with a dash. -/
theorem exists_shortNames {fs : List Flag} {o : Opt} (hfs : ∀ f ∈ fs, IsShort level (.flag f))
    (ho : IsShort level (.opt o)) :
    ∃ c r, shortNames fs ++ o.shortName?.toList = c :: r ∧ c ≠ '-' := by
  cases fs with
  | nil =>
    obtain ⟨c, hc⟩ : ∃ c, o.shortName? = some c := ho.exists_shortName
    exact ⟨c, [], by rw [hc]; rfl, Name.shortName_ne_dash (n := .opt o) hc⟩
  | cons f fs =>
    obtain ⟨c, hc⟩ := (hfs f (List.mem_cons_self ..)).exists_shortName
    exact ⟨c, _, by rw [shortNames_cons hc]; rfl, Name.shortName_ne_dash hc⟩

/-- **A spelling shows the language that it names**, and nothing else. -/
theorem showsLanguage_words (hp : p.IsFor level) : ShowsLanguage p.words p.apart? p.joined? := by
  cases p with
  | long f =>
    have h := ShowsLanguage.of_longName (n := .flag f) nofun []
    rwa [List.append_nil] at h
  | longWith o value =>
    by_cases ho : o = .lang
    · subst ho
      exact .of_joined value
    · have h := ShowsLanguage.of_longName (mt Name.opt.inj ho) ('=' :: value.toList)
      cases o <;> first | exact absurd rfl ho | exact h
  | longThen o value =>
    by_cases ho : o = .lang
    · subst ho
      exact .of_apart hp.2
    · have h := ShowsLanguage.of_longName (mt Name.opt.inj ho) []
      rw [List.append_nil] at h
      have hboth := h.append (.of_isValue hp.2)
      cases o <;> first | exact absurd rfl ho | exact hboth
  | short f fs =>
    obtain ⟨c, hc⟩ := (hp f (List.mem_cons_self ..)).exists_shortName
    have h := ShowsLanguage.of_single_dash (Name.shortName_ne_dash hc) (shortNames fs)
    rwa [← shortNames_cons hc] at h
  | shortWith fs o equals value =>
    obtain ⟨c, r, hcr, hc⟩ := exists_shortNames hp.1 hp.2.1
    have h := ShowsLanguage.of_single_dash hc
      (r ++ if equals then '=' :: value.toList else value.toList)
    rwa [← List.cons_append, ← hcr] at h
  | shortThen fs o value =>
    obtain ⟨c, r, hcr, hc⟩ := exists_shortNames hp.1 hp.2.1
    have h := ShowsLanguage.of_single_dash hc r
    rw [← hcr] at h
    exact h.append (.of_isValue hp.2.2)

end Spelling

/-- Spellings show the first language that is named in a word of its own, and the first that is
    named in the option's word. -/
theorem showsLanguage_written {level : Level} {ps : List Spelling} (h : ∀ p ∈ ps, p.IsFor level) :
    ShowsLanguage (written ps) (ps.findSome? Spelling.apart?) (ps.findSome? Spelling.joined?) := by
  induction ps with
  | nil => exact .nil
  | cons p ps ih =>
    obtain ⟨hp, hps⟩ := List.forall_mem_cons.mp h
    have hcons (f : Spelling → Option String) :
        (p :: ps).findSome? f = (f p).or (ps.findSome? f) := by
      rw [List.findSome?_cons]
      cases f p <;> rfl
    rw [written_cons, hcons, hcons]
    exact (Spelling.showsLanguage_words hp).append (ih hps)

/-- A spelling says a language exactly if it shows it. -/
theorem Spelling.lang_mem_items {level : Level} {p : Spelling} (hp : p.IsFor level)
    {value : String} :
    .opt .lang value ∈ p.items ↔ p.apart? = some value ∨ p.joined? = some value := by
  cases p with
  | long f => simp [items, apart?, joined?]
  | longWith o v => cases o <;> simp [items, apart?, joined?, eq_comm]
  | longThen o v => cases o <;> simp [items, apart?, joined?, eq_comm]
  | short f fs => simp [items, apart?, joined?]
  | shortWith fs o equals v | shortThen fs o v =>
    -- only one option has a short name, and it is another one
    have ho : o ≠ .lang := by
      rintro rfl
      cases hp.2.1.2
    simp [items, apart?, joined?, ho.symm]

/-- The language that spellings say is the one that they show. -/
theorem language_of_shows {level : Level} {ps : List Spelling} (h : ∀ p ∈ ps, p.IsFor level)
    (hsay : Sayable (said ps)) :
    valueOf? .lang (said ps) =
      (ps.findSome? Spelling.apart?).or (ps.findSome? Spelling.joined?) := by
  have hsaid {p : Spelling} {value : String} (hp : p ∈ ps)
      (hvalue : p.apart? = some value ∨ p.joined? = some value) :
      valueOf? .lang (said ps) = some value :=
    hsay.valueOf?_eq_some_iff.mpr
      (List.mem_flatMap.mpr ⟨p, hp, (Spelling.lang_mem_items (h p hp)).mpr hvalue⟩)
  cases hapart : ps.findSome? Spelling.apart? with
  | some value =>
    obtain ⟨p, hp, hvalue⟩ := List.exists_of_findSome?_eq_some hapart
    exact hsaid hp (Or.inl hvalue)
  | none =>
    cases hjoined : ps.findSome? Spelling.joined? with
    | some value =>
      obtain ⟨p, hp, hvalue⟩ := List.exists_of_findSome?_eq_some hjoined
      exact hsaid hp (Or.inr hvalue)
    | none =>
      refine Option.eq_none_iff_forall_ne_some.mpr fun value hvalue => ?_
      obtain ⟨p, hp, hmem⟩ := List.mem_flatMap.mp (mem_of_valueOf? hvalue)
      rcases (Spelling.lang_mem_items (h p hp)).mp hmem with hsome | hsome
      · rw [List.findSome?_eq_none_iff.mp hapart p hp] at hsome
        cases hsome
      · rw [List.findSome?_eq_none_iff.mp hjoined p hp] at hsome
        cases hsome

theorem ShowsLanguage.of_closing (closed : Bool) : ShowsLanguage (closing closed) none none := by
  cases closed with
  | true => exact .quiet (by decide) (by decide)
  | false => exact .nil

/-- What the search comes upon in a command line. -/
theorem Arrangement.showsLanguage_words {w : Arrangement} (h : w.IsPlaced) :
    ShowsLanguage w.words
      ((w.outer.findSome? Spelling.apart?).or ((w.inner.getD []).findSome? Spelling.apart?))
      ((w.outer.findSome? Spelling.joined?).or ((w.inner.getD []).findSome? Spelling.joined?)) := by
  obtain ⟨outer, inner, closed⟩ := w
  refine (showsLanguage_written h.outer).append ?_
  cases inner with
  | none => exact .of_closing closed
  | some ps =>
    have hinit : ShowsLanguage [initWord] none none := .quiet (by decide) (by decide)
    have hinner := hinit.append ((showsLanguage_written h.inner).append (.of_closing closed))
    rwa [Option.or_none, Option.or_none, Option.none_or, Option.none_or] at hinner

/-! ## 3. What is searched for and what is asked for -/

/-- The search takes a value that is a word of its own, at any level, before one in the option's
    word; what is asked for is what the inner level names, before the outer one. The two orders
    differ only where both levels name a language. -/
theorem search_eq_iff (a j b k : Option String) :
    (a.or b).or (j.or k) = (b.or k).or (a.or j) ↔
      ∀ first last, a.or j = some first → b.or k = some last →
        first = last ∨ ¬ a.isSome ∧ b.isSome := by
  cases a <;> cases j <;> cases b <;> cases k <;> simp [eq_comm]

/-- Without the subcommand the search finds the language that is asked for. -/
theorem requestedLanguage_of_default {words : List String} {a : Args} (h : parse words = .ok a)
    (hdefault : a.init = none) : requestedLanguage words = a.language := by
  obtain ⟨⟨outer, inner, closed⟩, hplaced, hsay, rfl, rfl⟩ := parse_eq_ok_iff.mp h
  cases inner with
  | some ps => cases hdefault
  | none =>
    have hlanguage := language_of_shows hplaced.outer hsay.outer
    rw [(Arrangement.showsLanguage_words hplaced).requestedLanguage, Arrangement.args_eq]
    simp only [Option.getD_none, List.findSome?_nil, Option.or_none]
    rw [said_nil]
    exact hlanguage.symm

end CommandLine

/-- The language of the command that writes a configuration is the one it is given. -/
theorem InitCommand.language_execute (s : Surroundings) (language : Language)
    (projectDir : Option String) (force : Bool) :
    (execute s language projectDir force).language = language := by
  unfold execute
  cases ProjectDir.resolve s.env s.files language (projectDir.getD ".") "." with
  | error e => rfl
  | ok root =>
    simp only
    cases ConfigFile.write s.files language (Path.join root ConfigFile.standardName)
        ConfigFile.standardText force with
    | error e => rfl
    | ok written =>
      obtain ⟨new, files⟩ := written
      cases new <;> rfl

namespace CommandLine

/-- **The search finds the language that is asked for, unless the two levels name different ones and
    the outer one is found first**: because there the option is a word of its own, or because it is
    not one at the inner level either. It never finds one where none is asked for, nor none where
    one is; and the name of the program makes no difference to it. -/
theorem requestedLanguage_eq_language_iff (words : List String) (a : Args)
    (h : parse words = .ok a) :
    (∀ name, name ≠ languageWord → languageOf? name = none →
      requestedLanguage (name :: words) = requestedLanguage words) ∧
    (requestedLanguage words = none ↔ a.language = none) ∧
    ∃ w : Arrangement, w.IsPlaced ∧ w.IsSayable ∧ w.words = words ∧ w.args = a ∧
      (requestedLanguage words = a.language ↔
        ∀ first last, .opt .lang first ∈ said w.outer →
          .opt .lang last ∈ said (w.inner.getD []) → first = last ∨
            languageWord ∉ written w.outer ∧ languageWord ∈ written (w.inner.getD [])) := by
  obtain ⟨w, hplaced, hsay, rfl, rfl⟩ := parse_eq_ok_iff.mp h
  have hshows := Arrangement.showsLanguage_words hplaced
  have houter := language_of_shows hplaced.outer hsay.outer
  have hinner := language_of_shows hplaced.inner hsay.inner
  have hlanguage : w.args.language =
      (valueOf? .lang (said (w.inner.getD []))).or (valueOf? .lang (said w.outer)) := by
    rw [Arrangement.args_eq]
  refine ⟨fun name hname hof => ?_, ?_, w, hplaced, hsay, rfl, rfl, ?_⟩
  · have hnamed := (ShowsLanguage.quiet hname hof).append hshows
    rw [Option.none_or, Option.none_or] at hnamed
    exact hnamed.requestedLanguage.trans hshows.requestedLanguage.symm
  · rw [hshows.requestedLanguage, hlanguage, houter, hinner]
    simp only [Option.or_eq_none_iff]
    tauto
  · simp only [← hsay.outer.valueOf?_eq_some_iff, ← hsay.inner.valueOf?_eq_some_iff]
    rw [(showsLanguage_written hplaced.outer).mem_iff, (showsLanguage_written hplaced.inner).mem_iff,
      hshows.requestedLanguage, hlanguage, houter, hinner]
    exact search_eq_iff _ _ _ _

/-- The search takes the later language here: only at the inner level is the option a word of its
    own. The name of the program in front of the words changes nothing. -/
theorem requestedLanguage_eq_language_iff_of_joined_first :
    let words := ["--lang=en", "init", "--lang", "zh-CN"]
    parse words = .ok ⟨some "zh-CN", false, none, none, none, false, some false⟩ ∧
    requestedLanguage words = some "zh-CN" ∧
    requestedLanguage ("driver" :: words) = requestedLanguage words :=
  ⟨rfl, rfl, (requestedLanguage_eq_language_iff _ _ rfl).1 "driver" (by decide) (by decide)⟩

/-- Two languages in words of their own: the later one is asked for, and the earlier one is found.
    So on every host the configuration is written in English where Chinese is asked for. -/
theorem requestedLanguage_ne_language_of_both_levels :
    let words := ["--lang", "en", "init", "--lang", "zh-CN"]
    ∃ a, parse words = .ok a ∧ a.language = some "zh-CN" ∧ requestedLanguage words = some "en" ∧
      ∀ host : Host, (Program.run host words).language = .english ∧
        Language.choose host.env a.language = .chinese := by
  refine ⟨⟨some "zh-CN", false, none, none, none, false, some false⟩, rfl, rfl, rfl, fun host => ?_⟩
  exact ⟨InitCommand.language_execute host.surroundings .english none false, rfl⟩

end CommandLine

end SuiteDriver
