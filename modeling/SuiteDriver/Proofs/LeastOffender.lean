import SuiteDriver.Proofs.Schema
import SuiteDriver.Proofs.Sheets

/-!
# The least name that is refused

The entries of a configuration are decoded in the order of their names, up to the first that is
refused. What an entry is refused for is up to the entry alone: neither what was decoded before it
nor the place where it stands has a say. So of all entries that are refused the one with the least
name decides, in whatever order they come.

* `decodeEntry_mapEntry`: an entry that stands elsewhere is refused for the same, elsewhere;
* `Refuses`, `decodeEntry_eq_error_iff`: what an entry is refused for, on whatever it follows;
* `Offends`, `offends_iff`: the rows that are refused;
* `IsNoNumber`, `decodeEntry_unreadable_iff`: the one offence that there are no words for;
* `decode_of_least`: the least name that is refused decides.
-/

namespace SuiteDriver

open Toml

namespace Config

variable {f : Span → Span}

/-! ## 1. Decoding and spans -/

/-- A refusal with its span changed. -/
def Refusal.mapSpan (f : Span → Span) : Refusal → Refusal
  | .unreadable => .unreadable
  | .fault span problem => .fault (f span) problem

theorem decodeText_mapSpans (v : Located Value) :
    decodeText (v.mapSpans f) = (decodeText v).mapError (Refusal.mapSpan f) := by
  obtain ⟨span, value⟩ := v
  cases value with
  | text | boolean | moment | array | table => rfl
  | integer | float =>
    unfold decodeText
    simp only [Located.mapSpans, Value.mapSpans]
    split <;> rfl

theorem decodeName_mapSpan (name : String) (span : Span) :
    decodeName name (f span) = (decodeName name span).mapError (Refusal.mapSpan f) := by
  unfold decodeName
  split <;> rfl

theorem checkEmpty_mapSpans (v : Located Value) :
    checkEmpty (v.mapSpans f) = (checkEmpty v).mapError (Refusal.mapSpan f) := by
  obtain ⟨span, value⟩ := v
  cases value with
  | text | integer | float | boolean | moment => rfl
  | array ofTables items => cases items <;> rfl
  | table origin entries => cases entries <;> rfl

theorem decodeVariant_mapSpans (v : Located Value) :
    decodeVariant (v.mapSpans f) = (decodeVariant v).mapError (Refusal.mapSpan f) := by
  obtain ⟨span, value⟩ := v
  cases value with
  | text s => exact decodeName_mapSpan s span
  | integer | float | boolean | moment | array => rfl
  | table origin entries =>
    rcases entries with _ | ⟨⟨key, under⟩, _ | ⟨e, es⟩⟩
    · rfl
    · have hname := decodeName_mapSpan (f := f) key.name key.span
      have hunder := checkEmpty_mapSpans (f := f) under
      simp only [decodeVariant, Located.mapSpans, Value.mapSpans, mapEntries, Key.mapSpan] at hunder ⊢
      rw [hname]
      cases decodeName key.name key.span with
      | error x => rfl
      | ok variant =>
        simp only [Except.mapError]
        rw [hunder]
        cases checkEmpty under <;> rfl
    · rfl

/-- **What an entry is refused for does not depend on where it stands**, only where it is refused. -/
theorem decodeEntry_mapEntry (c : Config) (e : Key × Located Value) :
    decodeEntry c (mapEntry f e) = (decodeEntry c e).mapError (Refusal.mapSpan f) := by
  obtain ⟨key, v⟩ := e
  simp only [decodeEntry, mapEntry, Key.mapSpan, decodeText_mapSpans, decodeVariant_mapSpans]
  split
  · cases decodeText v <;> rfl
  · split
    · cases decodeText v <;> rfl
    · split
      · cases decodeVariant v <;> rfl
      · rfl

/-- **What an entry is refused for**: its value, or its key. -/
inductive Refuses (e : Key × Located Value) : Refusal → Prop
  | text {x : Refusal} (hk : e.1.name = "language" ∨ e.1.name = "project_dir")
      (h : decodeText e.2 = .error x) : Refuses e x
  | variant {x : Refusal} (hk : e.1.name = "variant") (h : decodeVariant e.2 = .error x) :
      Refuses e x
  | unknown (hk : e.1.name ∉ ["language", "variant", "project_dir"]) :
      Refuses e (.fault e.1.span (.unknownField e.1.name))

/-- **An entry is refused for itself**, whatever was decoded before it. -/
theorem decodeEntry_eq_error_iff {c : Config} {e : Key × Located Value} {x : Refusal} :
    decodeEntry c e = .error x ↔ Refuses e x := by
  obtain ⟨key, v⟩ := e
  constructor
  · intro h
    unfold decodeEntry at h
    dsimp only at h
    split at h
    · next hk =>
      split at h
      · cases h
      · next htext => exact .text (Or.inl hk) (Except.error.inj h ▸ htext)
    · next hlanguage =>
      split at h
      · next hk =>
        split at h
        · cases h
        · next htext => exact .text (Or.inr hk) (Except.error.inj h ▸ htext)
      · next hdir =>
        split at h
        · next hk =>
          split at h
          · cases h
          · next hvariant => exact .variant hk (Except.error.inj h ▸ hvariant)
        · next hvariant =>
          cases h
          exact .unknown (by simp [hlanguage, hdir, hvariant])
  · rintro (⟨hk | hk, h⟩ | ⟨hk, h⟩ | hk)
    · have hk : key.name = "language" := hk
      simp [decodeEntry, hk, h]
    · have hk : key.name = "project_dir" := hk
      simp [decodeEntry, hk, h]
    · have hk : key.name = "variant" := hk
      simp [decodeEntry, hk, h]
    · simp only [List.mem_cons, List.not_mem_nil, or_false, not_or] at hk
      simp [decodeEntry, hk]

theorem decodeEntry_error_congr {c : Config} {e : Key × Located Value} {x : Refusal}
    (h : decodeEntry c e = .error x) (d : Config) : decodeEntry d e = .error x :=
  decodeEntry_eq_error_iff.mpr (decodeEntry_eq_error_iff.mp h)

/-! ## 2. Offences -/

/-- **A row that offends**: its key is not known, or its value is none that the key takes. -/
inductive Offends (r : Row) : Prop
  | unknown (h : r.key ∉ ["language", "variant", "project_dir"])
  | notText (h : r.key = "language" ∨ r.key = "project_dir") (hv : ∀ s, r.value ≠ .text s)
  | noVariant (h : r.key = "variant") (hv : ∀ x, ¬ r.value.Names x)

/-- **A number that has no value**: it goes on with characters that are no digits, or is beyond
    every range. -/
inductive IsNoNumber : Value → Prop
  /-- A whole number that goes on. -/
  | unread : IsNoNumber (.integer none)
  | beyond {n : Int} (h : 2 * n < -limit128 ∨ limit128 ≤ n) : IsNoNumber (.integer (some n))
  | infinite {d : Decimal} (h : d.magnitude? = none) : IsNoNumber (.float (.finite d))

variable {r : Row}

/-- **Rows that offend are those that are refused.** -/
theorem offends_iff : Offends r ↔ ∃ x, decodeEntry empty r.entry = .error x := by
  simp only [decodeEntry_eq_error_iff]
  constructor
  · rintro (hk | ⟨hk, hv⟩ | ⟨hk, hv⟩)
    · exact ⟨_, .unknown hk⟩
    · cases htext : decodeText r.entry.2 with
      | ok s => exact absurd (decodeText_eq_ok_iff.mp htext) (hv s)
      | error x => exact ⟨x, .text hk htext⟩
    · cases hvariant : decodeVariant r.entry.2 with
      | ok x => exact absurd (decodeVariant_eq_ok_iff.mp hvariant) (hv x)
      | error x => exact ⟨x, .variant hk hvariant⟩
  · rintro ⟨x, ⟨hk, h⟩ | ⟨hk, h⟩ | hk⟩
    · refine .notText hk fun s hs => ?_
      rw [decodeText_eq_ok_iff.mpr hs] at h
      cases h
    · refine .noVariant hk fun x hx => ?_
      rw [decodeVariant_eq_ok_iff.mpr hx] at h
      cases h
    · exact .unknown hk

theorem shape?_eq_none_iff {v : Value} (hv : ∀ s, v ≠ .text s) :
    shape? v = none ↔ IsNoNumber v := by
  constructor
  · intro h
    cases v with
    | text s => exact absurd rfl (hv s)
    | integer n =>
      cases n with
      | none => exact .unread
      | some n =>
        refine .beyond ?_
        simp only [shape?] at h
        split at h
        · cases h
        · omega
    | float x =>
      cases x with
      | finite d => exact .infinite (by simpa [shape?] using h)
      | infinite | notANumber => cases h
    | boolean | moment | array | table => cases h
  · rintro (_ | hbeyond | hinfinite)
    · rfl
    · exact if_neg (by omega)
    · simp [shape?, hinfinite]

theorem decodeText_eq_unreadable_iff {v : Located Value} :
    decodeText v = .error .unreadable ↔ IsNoNumber v.value := by
  obtain ⟨span, v⟩ := v
  by_cases htext : ∃ s, v = .text s
  · obtain ⟨s, rfl⟩ := htext
    exact ⟨nofun, nofun⟩
  · have hv := not_exists.mp htext
    rw [← shape?_eq_none_iff hv]
    unfold decodeText
    split
    · next s hs => exact absurd hs (hv s)
    · dsimp only
      split
      · next hshape => simp [hshape]
      · next hshape => simp [hshape]

theorem decodeVariant_ne_unreadable (v : Located Value) :
    decodeVariant v ≠ .error .unreadable := by
  have hname (name : String) (span : Span) : decodeName name span ≠ .error .unreadable := by
    unfold decodeName
    split <;> exact nofun
  have hempty (v : Located Value) : checkEmpty v ≠ .error .unreadable := by
    unfold checkEmpty
    split <;> exact nofun
  intro h
  unfold decodeVariant at h
  split at h
  · exact hname _ _ h
  · cases h
  · split at h
    · next hx =>
      cases h
      exact hname _ _ hx
    · split at h
      · next hx =>
        cases h
        exact hempty _ hx
      · cases h
  · cases h
  · cases h

/-- **The one offence that has no words**: a number without a value where text is wanted. -/
theorem decodeEntry_unreadable_iff :
    decodeEntry empty r.entry = .error .unreadable ↔
      (r.key = "language" ∨ r.key = "project_dir") ∧ IsNoNumber r.value := by
  rw [decodeEntry_eq_error_iff]
  constructor
  · rintro (⟨hk, h⟩ | ⟨hk, h⟩)
    · exact ⟨hk, decodeText_eq_unreadable_iff.mp h⟩
    · exact absurd h (decodeVariant_ne_unreadable _)
  · rintro ⟨hk, h⟩
    exact .text hk (decodeText_eq_unreadable_iff.mpr h)

/-! ## 3. The least key decides -/

/-- Entries in order are decoded up to the first that is refused. -/
theorem decodeFrom_of_least {c : Config} {es : Entries} {e : Key × Located Value} {x : Refusal}
    (hsorted : es.Pairwise fun a b => a.1.name ≤ b.1.name) (hes : es.names.Nodup) (he : e ∈ es)
    (hx : decodeEntry empty e = .error x)
    (hleast : ∀ e' ∈ es, (∃ y, decodeEntry empty e' = .error y) → e.1.name ≤ e'.1.name) :
    decodeFrom c es = .error x := by
  induction es generalizing c with
  | nil => cases he
  | cons first es ih =>
    obtain ⟨hfirst, hrest⟩ := List.pairwise_cons.mp hsorted
    obtain ⟨hfree, hnodup⟩ := List.nodup_cons.mp hes
    rcases List.mem_cons.mp he with rfl | hmem
    · rw [decodeFrom, decodeEntry_error_congr hx c]
    · -- an entry in front of the least that is refused is not refused
      have haccepted : ∀ y, decodeEntry c first ≠ .error y := by
        intro y hy
        have hle := hleast first List.mem_cons_self ⟨y, decodeEntry_error_congr hy empty⟩
        have hsame := String.le_antisymm hle (hfirst e hmem)
        exact hfree (List.mem_map.mpr ⟨e, hmem, hsame⟩)
      rw [decodeFrom]
      cases hd : decodeEntry c first with
      | error y => exact absurd hd (haccepted y)
      | ok d => exact ih hrest hnodup hmem fun e' he' => hleast e' (List.mem_cons_of_mem _ he')

theorem pairwise_byName (es : Entries) :
    (byName es).Pairwise fun a b => a.1.name ≤ b.1.name := by
  refine (List.pairwise_mergeSort (fun a b c => ?_) (fun a b => ?_) es).imp of_decide_eq_true
  · simpa using String.le_trans
  · simpa using String.le_total a.1.name b.1.name

/-- **The least name that is refused decides**, whatever the order of the entries. -/
theorem decode_of_least {es : Entries} {e : Key × Located Value} {x : Refusal}
    (hes : es.names.Nodup) (he : e ∈ es) (hx : decodeEntry empty e = .error x)
    (hleast : ∀ e' ∈ es, (∃ y, decodeEntry empty e' = .error y) → e.1.name ≤ e'.1.name) :
    decode es = .error x :=
  decodeFrom_of_least (pairwise_byName es) (nodup_names_byName hes) ((byName_perm es).mem_iff.mpr he)
    hx fun e' he' => hleast e' ((byName_perm es).mem_iff.mp he')

end Config

end SuiteDriver
