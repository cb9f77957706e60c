import SuiteDriver.Proofs.OneLanguage

/-!
# What a locale selects

A locale selects itself if it is there, else its language part if that is there, else English. The
list of what is there counts only as a set, and what was selected selects itself, even where English
is not there.

The language part ends at a hyphen or at an underscore, but the whole locale is compared as it is
written. So the two separators stand for each other except where a whole locale is at stake: with an
underscore it is never found.

* `IsPart`, `Selects`: the language part and the selection, without the search;
* `resolve_selects`: a locale resolves to what it selects;
* `resolve_hyphenated_iff`: when the separator has no say.
-/

namespace SuiteDriver

/-- Every language has a tag of its own. -/
theorem Language.tag_inj {a b : Language} : a.tag = b.tag ↔ a = b := by
  cases a <;> cases b <;> decide

namespace Locale

/-! ## 1. The language part -/

/-- A hyphen or an underscore. -/
def IsSeparator (c : Char) : Prop := c = '-' ∨ c = '_'

/-- **The part of a locale before its first separator**; without one it is the whole locale. -/
structure IsPart (part locale : String) : Prop where
  free : ∀ c ∈ part.toList, ¬ IsSeparator c
  front : locale = part ∨ ∃ c rest, IsSeparator c ∧ locale.toList = part.toList ++ c :: rest

/-- Whether a locale goes on at a character. -/
def goesOn (c : Char) : Bool := decide (c ≠ '-' ∧ c ≠ '_')

theorem goesOn_iff {c : Char} : goesOn c = true ↔ ¬ IsSeparator c := by
  simp [goesOn, IsSeparator]

theorem toList_languagePart (locale : String) :
    (languagePart locale).toList = locale.toList.takeWhile goesOn := String.toList_ofList

theorem isPart_languagePart (locale : String) : IsPart (languagePart locale) locale where
  free c hc := by
    rw [toList_languagePart] at hc
    exact goesOn_iff.mp (List.mem_takeWhile_imp hc)
  front := by
    have hsplit := List.takeWhile_append_dropWhile (p := goesOn) (l := locale.toList)
    rw [← toList_languagePart] at hsplit
    cases hrest : locale.toList.dropWhile goesOn with
    | nil =>
      rw [hrest, List.append_nil] at hsplit
      exact Or.inl (String.toList_inj.mp hsplit.symm)
    | cons c rest =>
      have hstop : ¬ goesOn c = true := by
        have hhead := List.head?_dropWhile_not goesOn locale.toList
        simpa [hrest] using hhead
      rw [goesOn_iff, not_not] at hstop
      exact Or.inr ⟨c, rest, hstop, by rw [← hsplit, hrest]⟩

theorem IsPart.eq_languagePart {part locale : String} (h : IsPart part locale) :
    part = languagePart locale := by
  refine String.toList_inj.mp ?_
  have hpart : ∀ c ∈ part.toList, goesOn c = true := fun c hc => goesOn_iff.mpr (h.free c hc)
  rw [toList_languagePart]
  rcases h.front with rfl | ⟨c, rest, hc, hlocale⟩
  · exact (List.takeWhile_eq_self_iff.mpr hpart).symm
  · have hstop : ¬ goesOn c = true := fun hgo => goesOn_iff.mp hgo hc
    rw [hlocale, List.takeWhile_append_of_pos hpart, List.takeWhile_cons_of_neg hstop,
      List.append_nil]

theorem IsPart.self {part : String} (h : ∀ c ∈ part.toList, ¬ IsSeparator c) : IsPart part part :=
  ⟨h, Or.inl rfl⟩

/-! ## 2. The selection -/

/-- **What a locale selects** among those that are there. -/
inductive Selects (available : List String) (locale : String) : String → Prop
  | whole (h : locale ∈ available) : Selects available locale locale
  | part {p : String} (h : locale ∉ available) (hp : IsPart p locale) (hmem : p ∈ available) :
      Selects available locale p
  | english {p : String} (h : locale ∉ available) (hp : IsPart p locale) (hmem : p ∉ available) :
      Selects available locale "en"

variable {available : List String} {locale r : String}

theorem selects_resolve (locale : String) (available : List String) :
    Selects available locale (resolve locale available) := by
  unfold resolve
  split
  · next h => exact .whole h
  · next h =>
    split
    · next hmem => exact .part h (isPart_languagePart locale) hmem
    · next hmem => exact .english h (isPart_languagePart locale) hmem

theorem Selects.eq_resolve (h : Selects available locale r) : resolve locale available = r := by
  unfold resolve
  cases h with
  | whole h => rw [if_pos h]
  | part h hp hmem =>
    rw [hp.eq_languagePart] at hmem ⊢
    rw [if_neg h, if_pos hmem]
  | english h hp hmem =>
    rw [hp.eq_languagePart] at hmem
    rw [if_neg h, if_neg hmem]

theorem Selects.mem_or_english (h : Selects available locale r) : r ∈ available ∨ r = "en" := by
  cases h with
  | whole h => exact Or.inl h
  | part _ _ hmem => exact Or.inl hmem
  | english => exact Or.inr rfl

/-- The list counts as a set. -/
theorem Selects.of_same {others : List String} (hsame : ∀ l, l ∈ others ↔ l ∈ available)
    (h : Selects available locale r) : Selects others locale r := by
  cases h with
  | whole h => exact .whole ((hsame _).mpr h)
  | part h hp hmem => exact .part (mt (hsame _).mp h) hp ((hsame _).mpr hmem)
  | english h hp hmem => exact .english (mt (hsame _).mp h) hp (mt (hsame _).mp hmem)

/-- What was selected selects itself. -/
theorem Selects.again (h : Selects available locale r) : Selects available r r := by
  rcases h.mem_or_english with hmem | rfl
  · exact .whole hmem
  · -- English has no separator, so it is its own language part
    by_cases hmem : "en" ∈ available
    · exact .whole hmem
    · have hpart : IsPart "en" "en" := .self (by simp [IsSeparator])
      exact .english hmem hpart hmem

/-- **A locale resolves to what it selects**: to itself if it is there, else to its language part if
    that is there, else to English. So the result is there or is English, the list counts only as a
    set, and to resolve the result again changes nothing. -/
theorem resolve_selects (locale : String) (available : List String) :
    (∀ r, resolve locale available = r ↔ Selects available locale r) ∧
      (resolve locale available ∈ available ∨ resolve locale available = "en") ∧
      (∀ others : List String, (∀ l, l ∈ others ↔ l ∈ available) →
        resolve locale others = resolve locale available) ∧
      resolve (resolve locale available) available = resolve locale available := by
  have hselects := selects_resolve locale available
  refine ⟨fun r => ⟨?_, Selects.eq_resolve⟩, hselects.mem_or_english, fun others hsame => ?_, ?_⟩
  · rintro rfl
    exact hselects
  · exact (hselects.of_same hsame).eq_resolve
  · exact hselects.again.eq_resolve

/-- Separators of both kinds, one in front and one after the other, where English is not there: a
    locale without a language, one that is there only by its language, given twice and in another
    order, and English in the end. -/
theorem resolve_selects_without_english :
    resolve "-_zh" ["", "zh"] = "" ∧ resolve "zh_-CN" ["fr", "zh", "zh"] = "zh" ∧
      resolve "zh_-CN" ["zh", "fr"] = "zh" ∧
      resolve (resolve "de" ["fr", "zh"]) ["fr", "zh"] = "en" := by
  have hpart : IsPart "zh" "zh_-CN" :=
    ⟨by simp [IsSeparator], Or.inr ⟨'_', "-CN".toList, Or.inr rfl, rfl⟩⟩
  have hzh : resolve "zh_-CN" ["fr", "zh", "zh"] = "zh" :=
    ((resolve_selects _ _).1 _).mpr (.part (by decide) hpart (by decide))
  refine ⟨?_, hzh, ?_, ?_⟩
  · exact ((resolve_selects _ _).1 _).mpr (.part (by decide)
      ⟨by simp, Or.inr ⟨'-', "_zh".toList, Or.inl rfl, rfl⟩⟩ (by decide))
  · rw [(resolve_selects "zh_-CN" ["fr", "zh", "zh"]).2.2.1 ["zh", "fr"] (by simp; tauto), hzh]
  · rw [(resolve_selects "de" ["fr", "zh"]).2.2.2]
    exact ((resolve_selects _ _).1 _).mpr
      (.english (by decide) (.self (by simp [IsSeparator])) (by decide))

/-! ## 3. Hyphens for underscores -/

/-- A hyphen for an underscore. -/
def hyphen (c : Char) : Char := if c = '_' then '-' else c

/-- A locale with a hyphen for each underscore. -/
def hyphenated (locale : String) : String := String.ofList (locale.toList.map hyphen)

theorem isSeparator_hyphen_iff {c : Char} : IsSeparator (hyphen c) ↔ IsSeparator c := by
  unfold hyphen
  split
  · next h => simp [IsSeparator, h]
  · exact Iff.rfl

theorem map_hyphen {s : List Char} (h : '_' ∉ s) : s.map hyphen = s := by
  have hsame : ∀ c ∈ s, hyphen c = id c := by
    intro c hc
    refine if_neg ?_
    rintro rfl
    exact h hc
  rw [List.map_congr_left hsame, List.map_id]

theorem toList_hyphenated (locale : String) :
    (hyphenated locale).toList = locale.toList.map hyphen := String.toList_ofList

/-- Without an underscore there is nothing to write otherwise. -/
theorem hyphenated_of_not_mem (h : '_' ∉ locale.toList) : hyphenated locale = locale := by
  rw [hyphenated, map_hyphen h, String.ofList_toList]

/-- **The language part is the same with either separator.** -/
theorem IsPart.hyphenated {part : String} (h : IsPart part locale) :
    IsPart part (hyphenated locale) := by
  have hpart : part.toList.map hyphen = part.toList :=
    map_hyphen fun hmem => h.free _ hmem (Or.inr rfl)
  refine ⟨h.free, ?_⟩
  rcases h.front with rfl | ⟨c, rest, hc, hlocale⟩
  · exact Or.inl (String.toList_inj.mp (by rw [toList_hyphenated, hpart]))
  · refine Or.inr ⟨hyphen c, rest.map hyphen, isSeparator_hyphen_iff.mpr hc, ?_⟩
    rw [toList_hyphenated, hlocale, List.map_append, hpart, List.map_cons]

/-- Where neither spelling of a locale is there, both select the same. -/
theorem Selects.hyphenated (h : Selects available locale r) (hlocale : locale ∉ available)
    (hother : hyphenated locale ∉ available) : Selects available (hyphenated locale) r := by
  cases h with
  | whole h => exact absurd h hlocale
  | part _ hp hmem => exact .part hother hp.hyphenated hmem
  | english _ hp hmem => exact .english hother hp.hyphenated hmem

/-- A locale that is not there selects nothing with a separator. -/
theorem Selects.free (h : Selects available locale r) (hlocale : locale ∉ available) :
    ∀ c ∈ r.toList, ¬ IsSeparator c := by
  cases h with
  | whole h => exact absurd h hlocale
  | part _ hp _ => exact hp.free
  | english => simp [IsSeparator]

/-- A character that is no hyphen was none before. -/
theorem eq_of_hyphen {c d : Char} (h : hyphen c = d) (hd : d ≠ '-') : c = d := by
  unfold hyphen at h
  split at h
  · exact absurd h.symm hd
  · exact h

/-- **Of the locales with an underscore one is there** when it is written with a hyphen. -/
theorem hyphenated_mem_tags_iff {given : String} (hmem : '_' ∈ given.toList) :
    hyphenated given ∈ Language.tags ↔ given = "zh_CN" := by
  constructor
  · intro hthere
    have hchars : given.toList.map hyphen = ['e', 'n'] ∨
        given.toList.map hyphen = ['z', 'h', '-', 'C', 'N'] := by
      have htags : hyphenated given = "en" ∨ hyphenated given = "zh-CN" := by
        simpa [Language.tags, Language.all, Language.tag] using hthere
      rw [← toList_hyphenated]
      exact htags.imp (congrArg String.toList) (congrArg String.toList)
    refine String.toList_inj.mp ?_
    rcases hchars with hen | hzh
    · have hhyphen : '-' ∈ given.toList.map hyphen := List.mem_map.mpr ⟨'_', hmem, rfl⟩
      rw [hen] at hhyphen
      exact absurd hhyphen (by decide)
    · -- the letters are as they were, so the underscore is where the hyphen is now
      simp only [List.map_eq_cons_iff, List.map_eq_nil_iff] at hzh
      obtain ⟨z, _, hlist, hz, h, _, rfl, hh, c, _, rfl, -, C, _, rfl, hC, N, _, rfl, hN, rfl⟩ := hzh
      obtain rfl := eq_of_hyphen hz (by decide)
      obtain rfl := eq_of_hyphen hh (by decide)
      obtain rfl := eq_of_hyphen hC (by decide)
      obtain rfl := eq_of_hyphen hN (by decide)
      rw [hlist] at hmem ⊢
      obtain rfl : '_' = c := by simpa using hmem
      rfl
  · rintro rfl
    decide

/-- A locale with an underscore selects something else than its spelling with hyphens, if that is
    there. -/
theorem resolve_hyphenated_ne (hwritten : ∀ l ∈ available, '_' ∉ l.toList)
    (hmem : '_' ∈ locale.toList) (hthere : hyphenated locale ∈ available) :
    resolve (hyphenated locale) available ≠ resolve locale available := by
  have habsent : locale ∉ available := fun h => hwritten locale h hmem
  have hfree := (selects_resolve locale available).free habsent
  have hhyphen : '-' ∈ (hyphenated locale).toList := by
    rw [toList_hyphenated]
    exact List.mem_map.mpr ⟨'_', hmem, rfl⟩
  rw [(Selects.whole hthere).eq_resolve]
  intro heq
  rw [heq] at hhyphen
  exact hfree '-' hhyphen (Or.inl rfl)

/-- A locale and its spelling with hyphens differ only where the spelling is there. -/
theorem resolve_hyphenated_eq_iff (hwritten : ∀ l ∈ available, '_' ∉ l.toList) :
    resolve (hyphenated locale) available = resolve locale available ↔
      '_' ∉ locale.toList ∨ hyphenated locale ∉ available := by
  constructor
  · intro heq
    by_contra hboth
    obtain ⟨hmem, hthere⟩ := not_or.mp hboth
    exact resolve_hyphenated_ne hwritten (not_not.mp hmem) (not_not.mp hthere) heq
  · intro h
    by_cases hmem : '_' ∈ locale.toList
    · have habsent : locale ∉ available := fun hl => hwritten locale hl hmem
      have hother := h.resolve_left (not_not_intro hmem)
      exact ((selects_resolve locale available).hyphenated habsent hother).eq_resolve
    · rw [hyphenated_of_not_mem hmem]

/-- One spelling of one locale chooses another language than its spelling with hyphens. -/
theorem choose_hyphenated_eq_iff (env : Environment) (given : String) :
    Language.choose env (some (hyphenated given)) = Language.choose env (some given) ↔
      given ≠ "zh_CN" := by
  have hchoose (l : String) : Language.choose env (some l) = Language.ofLocale l := rfl
  have htags : ∀ l ∈ Language.tags, '_' ∉ l.toList := by decide
  rw [hchoose, hchoose, ← Language.tag_inj, Language.tag_ofLocale, Language.tag_ofLocale,
    resolve_hyphenated_eq_iff htags]
  by_cases hmem : '_' ∈ given.toList
  · simp [hmem, hyphenated_mem_tags_iff hmem]
  · have hne : given ≠ "zh_CN" := by
      rintro rfl
      exact hmem (by decide)
    simp [hmem, hne]

/-- **The separators stand for each other, unless the whole locale is at stake.** In a list written
    with hyphens a locale and its spelling with hyphens select the same if and only if the locale has
    no underscore, or its spelling with hyphens is not in the list. In the list of the program's
    languages this leaves out one spelling of one locale, in every environment. -/
theorem resolve_hyphenated_iff (locale : String) (available : List String)
    (hwritten : ∀ l ∈ available, '_' ∉ l.toList) :
    (resolve (hyphenated locale) available = resolve locale available ↔
        '_' ∉ locale.toList ∨ hyphenated locale ∉ available) ∧
      ∀ (env : Environment) (given : String),
        Language.choose env (some (hyphenated given)) = Language.choose env (some given) ↔
          given ≠ "zh_CN" :=
  ⟨resolve_hyphenated_eq_iff hwritten, choose_hyphenated_eq_iff⟩

/-- A regional spelling with underscores, of which neither spelling is there, selects the language
    alone. -/
theorem resolve_hyphenated_iff_of_region :
    resolve (hyphenated "en_Latn_GB") ["en", "zh-CN"] = resolve "en_Latn_GB" ["en", "zh-CN"] :=
  (resolve_hyphenated_iff "en_Latn_GB" ["en", "zh-CN"] (by decide)).1.mpr (Or.inr (by decide))

/-- **An underscore can change the language**: with it the Chinese locale is not found. -/
theorem resolve_underscore_of_whole_locale :
    ¬ ∀ (locale : String) (available : List String), (∀ l ∈ available, '_' ∉ l.toList) →
      resolve (hyphenated locale) available = resolve locale available := by
  intro h
  have hchinese := h "zh_CN" Language.tags (by decide)
  revert hchinese
  decide

end Locale

end SuiteDriver
