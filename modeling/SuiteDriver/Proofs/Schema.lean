import SuiteDriver.Config
import SuiteDriver.Proofs.DistinctKeys

/-!
# What a configuration accepts

A text is a configuration if its table fits a schema: no keys but three, text under two of them, and
under the third a variant, by its name or as a table with that name as its one key and nothing under
it. The schema speaks of the table as a map. It does not ask how the table was written, and nothing
else is asked of it.

* `Value.Names`, `Entries.Fits`: the schema, without the decoder;
* `Config.decodeVariant_eq_ok_iff`, `Config.decodeEntry_eq_ok_iff`: one value, one entry;
* `Config.exists_decodeFrom_iff`, `Config.says_of_decodeFrom`: what entries in a row decode to;
* `Config.parse_iff_fits`: the schema is what a text has to fit, and what it then says.
-/

namespace SuiteDriver

/-! ## 1. The schema -/

namespace Toml

/-- An empty table or an empty list. -/
def Value.IsEmpty (v : Value) : Prop := (∃ origin, v = .table origin []) ∨ ∃ rows, v = .array rows []

/-- **A value names a variant**: by a text, or by the one key of a table with nothing under it. -/
inductive Value.Names (x : Variant) : Value → Prop
  | text : Names x (.text x.name)
  | key (origin : Origin) {key : Key} {under : Located Value} (hkey : key.name = x.name)
      (hunder : under.value.IsEmpty) : Names x (.table origin [(key, under)])

namespace Entries

/-- The text under a name, if there is one. -/
def textAt (name : String) (es : Entries) : Option String :=
  match (es.find? name).map Located.value with
  | some (.text s) => some s
  | _ => none

/-- **The schema of a configuration**, for a table that is a map from names to values. -/
structure Fits (es : Entries) : Prop where
  keys : ∀ name v, es.find? name = some v → name ∈ ["language", "variant", "project_dir"]
  language : ∀ v, es.find? "language" = some v → ∃ s, v.value = .text s
  projectDir : ∀ v, es.find? "project_dir" = some v → ∃ s, v.value = .text s
  variant : ∀ v, es.find? "variant" = some v → ∃ x, v.value.Names x

end Entries

end Toml

open Toml

/-- **What a table says**: its texts, and the variant that it names, else the archive. -/
structure Config.Says (es : Entries) (c : Config) : Prop where
  language : c.language = es.textAt "language"
  projectDir : c.projectDir = es.textAt "project_dir"
  named : ∀ v, es.find? "variant" = some v → v.value.Names c.variant
  unnamed : es.find? "variant" = none → c.variant = .jar

namespace Config

/-! ## 2. One entry -/

theorem decodeText_eq_ok_iff {v : Located Value} {s : String} :
    decodeText v = .ok s ↔ v.value = .text s := by
  unfold decodeText
  constructor
  · intro h
    split at h
    · next heq =>
      cases h
      exact heq
    · split at h <;> cases h
  · intro h
    rw [h]

theorem decodeName_eq_ok_iff {name : String} {span : Span} {x : Variant} :
    decodeName name span = .ok x ↔ x.name = name := by
  rw [← Variant.ofConfigName?_eq_some_iff]
  unfold decodeName
  cases Variant.ofConfigName? name with
  | none => exact ⟨nofun, nofun⟩
  | some y => exact ⟨fun h => by cases h; rfl, fun h => by cases h; rfl⟩

theorem checkEmpty_eq_ok_iff {v : Located Value} : checkEmpty v = .ok () ↔ v.value.IsEmpty := by
  constructor
  · intro h
    unfold checkEmpty at h
    split at h
    · next heq => exact Or.inl ⟨_, heq⟩
    · next heq => exact Or.inr ⟨_, heq⟩
    all_goals cases h
  · rintro (⟨origin, h⟩ | ⟨rows, h⟩)
    · unfold checkEmpty
      rw [h]
    · unfold checkEmpty
      rw [h]

/-- **A value decodes to the variant that it names.** -/
theorem decodeVariant_eq_ok_iff {v : Located Value} {x : Variant} :
    decodeVariant v = .ok x ↔ v.value.Names x := by
  constructor
  · intro h
    unfold decodeVariant at h
    split at h
    · next s hv =>
      rw [hv, ← decodeName_eq_ok_iff.mp h]
      exact .text
    · cases h
    · next origin key under hv =>
      cases hname : decodeName key.name key.span with
      | error e =>
        rw [hname] at h
        cases h
      | ok y =>
        rw [hname] at h
        dsimp only at h
        split at h
        · cases h
        · next hempty =>
          cases h
          rw [hv]
          exact .key _ (decodeName_eq_ok_iff.mp hname).symm (checkEmpty_eq_ok_iff.mp hempty)
    · cases h
    · cases h
  · intro h
    obtain ⟨span, value⟩ := v
    cases h with
    | text => exact decodeName_eq_ok_iff.mpr rfl
    | key origin hkey hunder =>
      simp only [decodeVariant, decodeName_eq_ok_iff.mpr hkey.symm, checkEmpty_eq_ok_iff.mpr hunder]

/-- What an entry makes of a configuration. -/
inductive Adds (c : Config) : Key × Located Value → Config → Prop
  | language {k : Key} {v : Located Value} {s : String} (hk : k.name = "language")
      (hv : v.value = .text s) : Adds c (k, v) { c with language := some s }
  | projectDir {k : Key} {v : Located Value} {s : String} (hk : k.name = "project_dir")
      (hv : v.value = .text s) : Adds c (k, v) { c with projectDir := some s }
  | variant {k : Key} {v : Located Value} {x : Variant} (hk : k.name = "variant")
      (hv : v.value.Names x) : Adds c (k, v) { c with variant := x }

theorem decodeEntry_eq_ok_iff {c d : Config} {e : Key × Located Value} :
    decodeEntry c e = .ok d ↔ Adds c e d := by
  obtain ⟨k, v⟩ := e
  constructor
  · intro h
    unfold decodeEntry at h
    dsimp only at h
    split at h
    · next hk =>
      split at h
      · next hs =>
        cases h
        exact .language hk (decodeText_eq_ok_iff.mp hs)
      · cases h
    · split at h
      · next hk =>
        split at h
        · next hs =>
          cases h
          exact .projectDir hk (decodeText_eq_ok_iff.mp hs)
        · cases h
      · split at h
        · next hk =>
          split at h
          · next hx =>
            cases h
            exact .variant hk (decodeVariant_eq_ok_iff.mp hx)
          · cases h
        · cases h
  · intro h
    cases h with
    | language hk hv => simp [decodeEntry, hk, decodeText_eq_ok_iff.mpr hv]
    | projectDir hk hv => simp [decodeEntry, hk, decodeText_eq_ok_iff.mpr hv]
    | variant hk hv => simp [decodeEntry, hk, decodeVariant_eq_ok_iff.mpr hv]

/-- Whether an entry can be decoded does not depend on those before it. -/
theorem Adds.of_other {c d : Config} {e : Key × Located Value} (h : Adds c e d) (c' : Config) :
    ∃ d', Adds c' e d' := by
  cases h with
  | language hk hv => exact ⟨_, .language hk hv⟩
  | projectDir hk hv => exact ⟨_, .projectDir hk hv⟩
  | variant hk hv => exact ⟨_, .variant hk hv⟩

/-! ## 3. Entries in a row -/

theorem exists_decodeFrom_iff (c : Config) (es : Entries) :
    (∃ d, decodeFrom c es = .ok d) ↔ ∀ e ∈ es, ∃ d, Adds c e d := by
  induction es generalizing c with
  | nil => exact ⟨fun _ => List.forall_mem_nil _, fun _ => ⟨c, rfl⟩⟩
  | cons e es ih =>
    rw [decodeFrom, List.forall_mem_cons]
    constructor
    · intro h
      cases he : decodeEntry c e with
      | error x =>
        rw [he] at h
        obtain ⟨d, hd⟩ := h
        cases hd
      | ok c' =>
        rw [he] at h
        have hadds := decodeEntry_eq_ok_iff.mp he
        refine ⟨⟨c', hadds⟩, fun e' he' => ?_⟩
        obtain ⟨d, hd⟩ := (ih c').mp h e' he'
        exact hd.of_other c
    · rintro ⟨⟨c', hadds⟩, hrest⟩
      rw [decodeEntry_eq_ok_iff.mpr hadds]
      refine (ih c').mpr fun e' he' => ?_
      obtain ⟨d, hd⟩ := hrest e' he'
      exact hd.of_other c'

/-- A configuration with what a table says put over it. -/
structure SaysOver (c : Config) (es : Entries) (d : Config) : Prop where
  language : d.language = (es.textAt "language").or c.language
  projectDir : d.projectDir = (es.textAt "project_dir").or c.projectDir
  named : ∀ v, es.find? "variant" = some v → v.value.Names d.variant
  unnamed : es.find? "variant" = none → d.variant = c.variant

/-- **Entries under different names each say their part**, whatever their order. -/
theorem says_of_decodeFrom {c d : Config} {es : Entries} (hes : es.names.Nodup)
    (h : decodeFrom c es = .ok d) : SaysOver c es d := by
  induction es generalizing c with
  | nil =>
    cases h
    exact ⟨rfl, rfl, nofun, fun _ => rfl⟩
  | cons e es ih =>
    obtain ⟨k, v⟩ := e
    obtain ⟨hfree, hnodup⟩ := List.nodup_cons.mp hes
    have hnone : Entries.find? k.name es = none := Entries.find?_eq_none_iff.mpr hfree
    cases he : decodeEntry c (k, v) with
    | error x =>
      rw [decodeFrom, he] at h
      cases h
    | ok c' =>
      rw [decodeFrom, he] at h
      obtain ⟨hlanguage, hdir, hnamed, hunnamed⟩ := ih hnodup h
      -- the entry sets one field, and no later entry sets it again
      cases decodeEntry_eq_ok_iff.mp he with
      | language hk hv =>
        rw [hk] at hnone
        constructor
        · simp [Entries.textAt, Entries.find?, hk, hv, hlanguage, hnone]
        · simpa [Entries.textAt, Entries.find?, hk] using hdir
        · simpa [Entries.find?, hk] using hnamed
        · simpa [Entries.find?, hk] using hunnamed
      | projectDir hk hv =>
        rw [hk] at hnone
        constructor
        · simpa [Entries.textAt, Entries.find?, hk] using hlanguage
        · simp [Entries.textAt, Entries.find?, hk, hv, hdir, hnone]
        · simpa [Entries.find?, hk] using hnamed
        · simpa [Entries.find?, hk] using hunnamed
      | variant hk hv =>
        rw [hk] at hnone
        constructor
        · simpa [Entries.textAt, Entries.find?, hk] using hlanguage
        · simpa [Entries.textAt, Entries.find?, hk] using hdir
        · simpa [Entries.find?, hk, hunnamed hnone] using hv
        · simp [Entries.find?, hk]

/-! ## 4. A whole table -/

theorem byName_perm (es : Entries) : (byName es).Perm es := List.mergeSort_perm ..

theorem nodup_names_byName {es : Entries} (hes : es.names.Nodup) : (byName es).names.Nodup :=
  ((byName_perm es).map _).nodup_iff.mpr hes

/-- A table is the same map in every order of its entries. -/
theorem find?_byName {es : Entries} (hes : es.names.Nodup) (name : String) :
    (byName es).find? name = es.find? name := by
  cases hfound : es.find? name with
  | none =>
    rw [Entries.find?_eq_none_iff] at hfound ⊢
    exact mt ((byName_perm es).map _).mem_iff.mp hfound
  | some v =>
    obtain ⟨k, hmem, rfl⟩ := Entries.exists_key_of_find? hfound
    exact Entries.find?_of_mem (nodup_names_byName hes) ((byName_perm es).mem_iff.mpr hmem)

/-- The schema, entry by entry. -/
theorem fits_iff {es : Entries} (hes : es.names.Nodup) (c : Config) :
    es.Fits ↔ ∀ e ∈ es, ∃ d, Adds c e d := by
  constructor
  · rintro h ⟨k, v⟩ hmem
    have hfound := Entries.find?_of_mem hes hmem
    have hkey := h.keys k.name v hfound
    simp only [List.mem_cons, List.not_mem_nil, or_false] at hkey
    rcases hkey with hk | hk | hk
    · obtain ⟨s, hs⟩ := h.language v (hk ▸ hfound)
      exact ⟨_, .language hk hs⟩
    · obtain ⟨x, hx⟩ := h.variant v (hk ▸ hfound)
      exact ⟨_, .variant hk hx⟩
    · obtain ⟨s, hs⟩ := h.projectDir v (hk ▸ hfound)
      exact ⟨_, .projectDir hk hs⟩
  · intro h
    have hentry {name : String} {v : Located Value} (hv : es.find? name = some v) :
        ∃ k d, k.name = name ∧ Adds c (k, v) d := by
      obtain ⟨k, hmem, hk⟩ := Entries.exists_key_of_find? hv
      obtain ⟨d, hd⟩ := h _ hmem
      exact ⟨k, d, hk, hd⟩
    constructor
    · intro name v hv
      obtain ⟨k, d, rfl, hd⟩ := hentry hv
      cases hd with
      | language hk => simp [hk]
      | projectDir hk => simp [hk]
      | variant hk => simp [hk]
    · intro v hv
      obtain ⟨k, d, hname, hd⟩ := hentry hv
      cases hd with
      | language _ hs => exact ⟨_, hs⟩
      | projectDir hk => simp [hk] at hname
      | variant hk => simp [hk] at hname
    · intro v hv
      obtain ⟨k, d, hname, hd⟩ := hentry hv
      cases hd with
      | language hk => simp [hk] at hname
      | projectDir _ hs => exact ⟨_, hs⟩
      | variant hk => simp [hk] at hname
    · intro v hv
      obtain ⟨k, d, hname, hd⟩ := hentry hv
      cases hd with
      | language hk => simp [hk] at hname
      | projectDir hk => simp [hk] at hname
      | variant _ hx => exact ⟨_, hx⟩

/-- A table decodes exactly if it fits the schema. -/
theorem exists_decode_iff {es : Entries} (hes : es.names.Nodup) :
    (∃ c, decode es = .ok c) ↔ es.Fits := by
  have hperm := byName_perm es
  rw [decode, exists_decodeFrom_iff, fits_iff hes]
  exact ⟨fun h e he => h e (hperm.mem_iff.mpr he), fun h e he => h e (hperm.mem_iff.mp he)⟩

theorem says_of_decode {es : Entries} (hes : es.names.Nodup) {c : Config}
    (h : decode es = .ok c) : c.Says es := by
  obtain ⟨hlanguage, hdir, hnamed, hunnamed⟩ := says_of_decodeFrom (nodup_names_byName hes) h
  simp only [Entries.textAt, find?_byName hes] at hlanguage hdir hnamed hunnamed
  exact ⟨hlanguage.trans (Option.or_none ..), hdir.trans (Option.or_none ..), hnamed, hunnamed⟩

theorem parse_eq_ok_iff_decode {text : String} {es : Entries}
    (h : readEntries text.toList = .ok es) (c : Config) :
    parse text = .ok c ↔ decode es = .ok c := by
  unfold parse
  simp only [h]
  split
  · next d hd =>
    rw [hd]
    exact ⟨fun h => by cases h; rfl, fun h => by cases h; rfl⟩
  · next hd =>
    rw [hd]
    exact ⟨nofun, nofun⟩
  · next hd =>
    rw [hd]
    exact ⟨nofun, nofun⟩

/-- Entries in the order of their names are decoded as they stand. -/
theorem parse_of_sorted {text : String} {es : Entries} {c : Config}
    (h : readEntries text.toList = .ok es) (hsorted : es.Pairwise fun a b => a.1.name ≤ b.1.name)
    (hdecode : decodeFrom empty es = .ok c) : parse text = .ok c := by
  have hsame : byName es = es := List.mergeSort_of_pairwise (hsorted.imp decide_eq_true)
  rw [parse_eq_ok_iff_decode h, decode, hsame, hdecode]

/-- **A text is a configuration exactly if its table fits the schema**, however the table is
    written: it is a map, in which no name stands twice at any depth. What it then says are the
    texts under its two other names, and the variant that it names, or the archive if it names
    none. -/
theorem parse_iff_fits (text : String) (es : Entries) (h : readEntries text.toList = .ok es) :
    es.Distinct ∧ ((∃ c, parse text = .ok c) ↔ es.Fits) ∧
      ∀ c, parse text = .ok c → c.Says es := by
  have hdistinct := distinct_of_readEntries h
  simp only [parse_eq_ok_iff_decode h]
  exact ⟨hdistinct, exists_decode_iff hdistinct.names, fun c => says_of_decode hdistinct.names⟩

/-- A header that ends in the name of a variant chooses it, and a table with two names is refused,
    though nothing stands under either. -/
theorem parse_iff_fits_of_header :
    (∃ c, parse "project_dir = 'x'\n[variant.sync]\n" = .ok c ∧
      c.language = none ∧ c.projectDir = some "x" ∧ c.variant = .sync) ∧
    ¬ ∃ c, parse "variant = \x7b sync = [], jar = [] \x7d\n" = .ok c := by
  constructor
  · obtain ⟨a, b, d, e, f, g, o, o', hread⟩ : ∃ a b d e f g o o',
        readEntries "project_dir = 'x'\n[variant.sync]\n".toList =
          .ok [(⟨"project_dir", a⟩, ⟨b, .text "x"⟩),
            (⟨"variant", d⟩, ⟨e, .table o [(⟨"sync", f⟩, ⟨g, .table o' []⟩)]⟩)] :=
      ⟨_, _, _, _, _, _, _, _, rfl⟩
    have hsync : (Value.table o [(⟨"sync", f⟩, ⟨g, .table o' []⟩)]).Names .sync :=
      .key o rfl (Or.inl ⟨o', rfl⟩)
    obtain ⟨hdistinct, hparse, hsays⟩ := parse_iff_fits _ _ hread
    have hfits := (fits_iff hdistinct.names empty).mpr (List.forall_mem_cons.mpr
      ⟨⟨_, .projectDir rfl rfl⟩, List.forall_mem_singleton.mpr ⟨_, .variant rfl hsync⟩⟩)
    obtain ⟨c, hc⟩ := hparse.mpr hfits
    obtain ⟨hlanguage, hdir, hnamed, -⟩ := hsays c hc
    refine ⟨c, hc, hlanguage, hdir, ?_⟩
    generalize c.variant = x at hnamed
    cases hnamed _ rfl with
    | key _ hkey _ =>
      have hx : some Variant.sync = some x := Variant.ofName?_eq_some_iff.mpr hkey.symm
      exact (Option.some.inj hx).symm
  · obtain ⟨es, hread, span, o, first, second, hvariant⟩ : ∃ es,
        readEntries "variant = \x7b sync = [], jar = [] \x7d\n".toList = .ok es ∧
          ∃ span o first second, es.find? "variant" = some ⟨span, .table o [first, second]⟩ :=
      ⟨_, rfl, _, _, _, _, rfl⟩
    intro haccepted
    obtain ⟨x, hx⟩ := ((parse_iff_fits _ _ hread).2.1.mp haccepted).variant _ hvariant
    cases hx

end Config

end SuiteDriver
