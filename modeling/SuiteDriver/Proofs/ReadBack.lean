import SuiteDriver.Proofs.Schema
import SuiteDriver.Proofs.WrittenLines

/-!
# A configuration that is written is read back

Every configuration can be written, whatever characters its texts hold, and what is read is what
was written: the order of the lines, the spelling of the texts and all that stands between and
beside the settings have no say. The variant need not be written if it is the one of a run that
names none.

* `Config.settings`, `Config.IsWrittenBy`: what has to be written, and the documents that do;
* `Config.SetBy`: what settings have to say for a configuration, whatever their order;
* `Config.decode_of_setBy`: they decode to it;
* `Config.parse_reads_back`: every document that writes a configuration is parsed to it.
-/

namespace SuiteDriver

open Toml

namespace Config

/-! ## 1. What is written -/

/-- A configuration, setting by setting. -/
def settings (c : Config) : List (String × String) :=
  c.language.toList.map (("language", ·)) ++
    ("variant", c.variant.name) :: c.projectDir.toList.map (("project_dir", ·))

/-- **The documents that write a configuration**: they set its settings in some order, the variant
    or not if it is the archive, and nothing else. -/
def IsWrittenBy (c : Config) (d : Document) : Prop :=
  d.settings.Perm c.settings ∨
    c.variant = .jar ∧ d.settings.Perm (c.settings.filter fun p => p.1 ≠ "variant")

/-- A configuration as a document, with a line for each setting. -/
def document (c : Config) : Document :=
  .ofSettings (c.language.toList.map (Setting.plain "language" · (by decide)) ++
    Setting.plain "variant" c.variant.name (by decide) ::
      c.projectDir.toList.map (Setting.plain "project_dir" · (by decide)))

theorem isWrittenBy_document (c : Config) : c.IsWrittenBy c.document := by
  have hsettings : c.document.settings = c.settings := by
    unfold document settings
    rw [Document.settings_ofSettings, List.map_append, List.map_cons, List.map_map, List.map_map]
    rfl
  exact Or.inl (List.Perm.of_eq hsettings)

/-! ## 2. What settings say -/

/-- **Settings that say a configuration**, in any order. -/
structure SetBy (c : Config) (settings : List (String × String)) : Prop where
  keys : (settings.map Prod.fst).Nodup
  known : ∀ p ∈ settings, p.1 ∈ ["language", "variant", "project_dir"]
  language : ∀ t, ("language", t) ∈ settings ↔ c.language = some t
  projectDir : ∀ t, ("project_dir", t) ∈ settings ↔ c.projectDir = some t
  variant : ∀ t, ("variant", t) ∈ settings → t = c.variant.name
  unnamed : (∀ t, ("variant", t) ∉ settings) → c.variant = .jar

theorem mem_settings_iff {c : Config} {k t : String} :
    (k, t) ∈ c.settings ↔
      k = "language" ∧ c.language = some t ∨ k = "variant" ∧ t = c.variant.name ∨
        k = "project_dir" ∧ c.projectDir = some t := by
  simp only [settings, List.mem_append, List.mem_cons, List.mem_map, Option.mem_toList,
    Prod.mk.injEq]
  constructor
  · rintro (⟨s, hs, rfl, rfl⟩ | hvariant | ⟨s, hs, rfl, rfl⟩)
    · exact Or.inl ⟨rfl, hs⟩
    · exact Or.inr (Or.inl hvariant)
    · exact Or.inr (Or.inr ⟨rfl, hs⟩)
  · rintro (⟨rfl, hs⟩ | hvariant | ⟨rfl, hs⟩)
    · exact Or.inl ⟨t, hs, rfl, rfl⟩
    · exact Or.inr (Or.inl hvariant)
    · exact Or.inr (Or.inr ⟨t, hs, rfl, rfl⟩)

theorem setBy_settings (c : Config) : c.SetBy c.settings where
  keys := by
    unfold settings
    cases c.language <;> cases c.projectDir <;> simp
  known := by
    rintro ⟨k, t⟩ hmem
    rcases mem_settings_iff.mp hmem with ⟨rfl, -⟩ | ⟨rfl, -⟩ | ⟨rfl, -⟩ <;> simp
  language t := by simp [mem_settings_iff]
  projectDir t := by simp [mem_settings_iff]
  variant t ht := by simpa [mem_settings_iff] using ht
  unnamed hnone := absurd (mem_settings_iff.mpr (Or.inr (Or.inl ⟨rfl, rfl⟩))) (hnone c.variant.name)

/-- The archive need not be named. -/
theorem SetBy.without {c : Config} {settings : List (String × String)} (h : c.SetBy settings)
    (hjar : c.variant = .jar) : c.SetBy (settings.filter fun p => p.1 ≠ "variant") where
  keys := h.keys.sublist (List.filter_sublist.map _)
  known p hp := h.known p (List.mem_filter.mp hp).1
  language t := by simpa using h.language t
  projectDir t := by simpa using h.projectDir t
  variant t ht := h.variant t (List.mem_filter.mp ht).1
  unnamed _ := hjar

theorem SetBy.perm {c : Config} {xs ys : List (String × String)} (h : c.SetBy xs)
    (hperm : ys.Perm xs) : c.SetBy ys where
  keys := (hperm.map _).nodup_iff.mpr h.keys
  known p hp := h.known p (hperm.mem_iff.mp hp)
  language t := hperm.mem_iff.trans (h.language t)
  projectDir t := hperm.mem_iff.trans (h.projectDir t)
  variant t ht := h.variant t (hperm.mem_iff.mp ht)
  unnamed hnone := h.unnamed fun t ht => hnone t (hperm.mem_iff.mpr ht)

theorem IsWrittenBy.setBy {c : Config} {d : Document} (h : c.IsWrittenBy d) :
    c.SetBy d.settings := by
  rcases h with hperm | ⟨hjar, hperm⟩
  · exact (setBy_settings c).perm hperm
  · exact ((setBy_settings c).without hjar).perm hperm

end Config

/-! ## 3. What is read -/

/-- A text names no variant but the one of that name. -/
theorem Toml.Value.Names.eq_of_text {x y : Variant} (h : Value.Names x (.text y.name)) : x = y := by
  generalize hv : Value.text y.name = v at h
  cases h with
  | text =>
    have hname : x.name = y.name := (Value.text.inj hv).symm
    have hfound := Variant.ofName?_eq_some_iff.mpr hname
    rw [Variant.ofName?_eq_some_iff.mpr rfl] at hfound
    exact (Option.some.inj hfound).symm
  | key _ _ _ => cases hv

namespace Toml.Entries

variable {es : Entries} {settings : List (String × String)}

theorem Are.exists_iff (h : es.Are settings) {k t : String} :
    (∃ e ∈ es, e.1.name = k ∧ e.2.value = .text t) ↔ (k, t) ∈ settings := by
  have hmem : (k, Value.text t) ∈ es.map (fun e => (e.1.name, e.2.value)) ↔
      (k, Value.text t) ∈ settings.map fun p => (p.1, .text p.2) := by rw [h]
  simpa using hmem

/-- Every entry is one of the settings. -/
theorem Are.of_mem (h : es.Are settings) {e : Key × Located Value} (he : e ∈ es) :
    ∃ t, e.2.value = .text t ∧ (e.1.name, t) ∈ settings := by
  have hmem : (e.1.name, e.2.value) ∈ es.map (fun e => (e.1.name, e.2.value)) :=
    List.mem_map_of_mem he
  rw [h] at hmem
  obtain ⟨⟨k, t⟩, hp, hsame⟩ := List.mem_map.mp hmem
  obtain ⟨hkey, hvalue⟩ := Prod.mk.inj hsame
  exact ⟨t, hvalue.symm, hkey ▸ hp⟩

/-- **The text under a name is the one that the name is set to.** -/
theorem Are.textAt_eq_some_iff (h : es.Are settings) (hkeys : (settings.map Prod.fst).Nodup)
    {k t : String} : es.textAt k = some t ↔ (k, t) ∈ settings := by
  rw [← h.exists_iff]
  unfold Entries.textAt
  constructor
  · intro ht
    cases hfound : es.find? k with
    | none => simp [hfound] at ht
    | some v =>
      obtain ⟨key, hmem, hkey⟩ := Entries.exists_key_of_find? hfound
      obtain ⟨s, hs, -⟩ := h.of_mem hmem
      have hv : v.value = .text s := hs
      rw [hfound, Option.map_some, hv] at ht
      exact ⟨(key, v), hmem, hkey, hv.trans (congrArg _ (Option.some.inj ht))⟩
  · rintro ⟨⟨key, v⟩, hmem, rfl, hv⟩
    have hfound := Entries.find?_of_mem (h.names ▸ hkeys) hmem
    have htext : v.value = .text t := hv
    rw [hfound, Option.map_some, htext]

end Toml.Entries

namespace Config

section Settings

variable {c : Config} {es : Entries} {settings : List (String × String)}

/-- Settings that say a configuration keep to the schema. -/
theorem fits_of_setBy (hes : es.Are settings) (hset : c.SetBy settings) : es.Fits := by
  refine (fits_iff (hes.names ▸ hset.keys) empty).mpr fun e he => ?_
  obtain ⟨key, v⟩ := e
  obtain ⟨t, hvalue, hmem⟩ := hes.of_mem he
  have hknown := hset.known _ hmem
  simp only [List.mem_cons, List.not_mem_nil, or_false] at hknown
  rcases hknown with hkey | hkey | hkey
  · exact ⟨_, .language hkey hvalue⟩
  · have ht : t = c.variant.name := hset.variant t (hkey ▸ hmem)
    have hnamed : v.value.Names c.variant := by
      rw [hvalue, ht]
      exact .text
    exact ⟨_, .variant hkey hnamed⟩
  · exact ⟨_, .projectDir hkey hvalue⟩

/-- Entries say no other configuration than the one that their settings say. -/
theorem Says.eq_of_setBy {d : Config} (h : Says es d) (hes : es.Are settings)
    (hset : c.SetBy settings) : d = c := by
  have hlanguage : d.language = c.language := by
    refine Option.ext fun t => ?_
    rw [h.language, hes.textAt_eq_some_iff hset.keys, hset.language]
  have hdir : d.projectDir = c.projectDir := by
    refine Option.ext fun t => ?_
    rw [h.projectDir, hes.textAt_eq_some_iff hset.keys, hset.projectDir]
  have hvariant : d.variant = c.variant := by
    cases hfound : es.find? "variant" with
    | none =>
      rw [h.unnamed hfound]
      refine (hset.unnamed fun t ht => ?_).symm
      have htext := (hes.textAt_eq_some_iff hset.keys).mpr ht
      simp [Entries.textAt, hfound] at htext
    | some v =>
      obtain ⟨key, hmem, hkey⟩ := Entries.exists_key_of_find? hfound
      obtain ⟨t, hvalue, hset'⟩ := hes.of_mem hmem
      have htext : v.value = .text c.variant.name := by
        rw [← hset.variant t (hkey ▸ hset')]
        exact hvalue
      have hnamed := h.named v hfound
      rw [htext] at hnamed
      exact hnamed.eq_of_text
  cases d
  cases c
  cases hlanguage
  cases hdir
  cases hvariant
  rfl

/-- **Entries of settings decode to the configuration that the settings say.** -/
theorem decode_of_setBy (hes : es.Are settings) (hset : c.SetBy settings) :
    decode es = .ok c := by
  have hnames : es.names.Nodup := hes.names ▸ hset.keys
  obtain ⟨d, hd⟩ := (exists_decode_iff hnames).mpr (fits_of_setBy hes hset)
  rw [hd, (says_of_decode hnames hd).eq_of_setBy hes hset]

end Settings

/-- A document that writes a configuration is parsed to it. -/
theorem parse_of_isWrittenBy {c : Config} {d : Document} (h : c.IsWrittenBy d) :
    parse (String.ofList d.chars) = .ok c := by
  have hset := h.setBy
  obtain ⟨es, hes, hread⟩ := d.readEntries_chars hset.keys
  have htext : readEntries (String.ofList d.chars).toList = .ok es := by
    rw [String.toList_ofList, hread]
  exact (parse_eq_ok_iff_decode htext c).mpr (decode_of_setBy hes hset)

/-- **What is written is read back.** Every configuration has a document that writes it, and every
    document that writes it is parsed to it. -/
theorem parse_reads_back (c : Config) :
    parse (String.ofList c.document.chars) = .ok c ∧
      ∀ d : Document, c.IsWrittenBy d → parse (String.ofList d.chars) = .ok c :=
  ⟨parse_of_isWrittenBy c.isWrittenBy_document, fun _ h => parse_of_isWrittenBy h⟩

/-- A text with a quote, a backslash, a line feed and a control is read back, and one that is
    written by the number of its character, below and beside comments, in the other order and
    without the variant. -/
theorem parse_reads_back_of_odd_texts :
    parse "# both\r\n\nproject_dir = \"a\\\"\\\\\\u000a\\u007f\"\n language=\"\\xE9\"\t# again" =
      .ok ⟨some "é", .jar, some "a\"\\\n\x7f"⟩ := by
  obtain ⟨d, hsettings, htext⟩ : ∃ d : Document,
      d.settings = [("project_dir", "a\"\\\n\x7f"), ("language", "é")] ∧ String.ofList d.chars =
        "# both\r\n\nproject_dir = \"a\\\"\\\\\\u000a\\u007f\"\n language=\"\\xE9\"\t# again" :=
    ⟨.more (.filler ⟨⟨[], rfl⟩, some ⟨" both".toList, by decide⟩⟩) .returnFeed
      (.more (.filler Remark.nothing) .feed
        (.more (.setting (.plain "project_dir" "a\"\\\n\x7f" (by decide)) Remark.nothing) .feed
          (.last (.setting
            ⟨⟨[' '], by decide⟩, "language", ⟨[], rfl⟩, ⟨[], rfl⟩, "é", _, by decide,
              .cons (@SpellsChar.number 'é' 'x' [('E', 14), ('9', 9)] (by decide) (by decide) rfl)
                .nil⟩
            ⟨⟨['\t'], by decide⟩, some ⟨" again".toList, by decide⟩⟩)))), rfl, by decide⟩
  have hwritten : IsWrittenBy ⟨some "é", .jar, some "a\"\\\n\x7f"⟩ d := by
    refine Or.inr ⟨rfl, ?_⟩
    rw [hsettings]
    exact List.Perm.swap ..
  rw [← htext]
  exact (parse_reads_back _).2 d hwritten

end Config

end SuiteDriver
