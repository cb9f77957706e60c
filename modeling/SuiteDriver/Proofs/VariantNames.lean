import SuiteDriver.Proofs.Arrangements
import SuiteDriver.Proofs.ReadBack

/-!
# The names of variants

A variant is named in three ways: by itself, on the command line, and in a configuration. The
command line looks the name up in a list before it is searched, and a configuration has names made
by another rule, but a text is the same variant's name for all three or no name for any. So what the
command line lets through is found.

* `CommandLine.parse_variant`: one word that names a variant;
* `Config.refuses_of_unknown`: a configuration that names none;
* `Variant.readers_agree`: one variant for all three readers, or none.
-/

namespace SuiteDriver

open Toml

/-! ## 1. The command line -/

namespace CommandLine

/-- What comes of a command line that names a variant and says nothing else. -/
theorem parse_variant (s : String) :
    parse ["--variant=" ++ s] =
      match Given.nothing.setOpt? .variant s with
      | .ok g => .ok (Levels.args ⟨g, none⟩)
      | .error m => .error (.misuse m) := by
  have hword : ("--variant=" ++ s).toList =
      '-' :: '-' :: 'v' :: ("ariant=".toList ++ s.toList) := by
    rw [String.toList_append]
    rfl
  obtain ⟨hinit, hhelp⟩ := ne_of_dash hword
  have hknown : Name.IsKnown .program (.opt .variant) := by decide
  have hlong : State.initial.onLong .program ('v' :: ("ariant=".toList ++ s.toList)) =
      State.initial.onOpt .variant (some s) := State.onLong_equals hknown s _
  have hopt : State.initial.onOpt .variant (some s) =
      match Given.nothing.setOpt? .variant s with
      | .ok g => .ok ⟨g, .none⟩
      | .error m => .error (.misuse m) := by
    have hgive : Given.nothing.giveOpt .variant s =
        match Given.nothing.setOpt? .variant s with
        | .ok g => .ok g
        | .error m => .error (.misuse m) := rfl
    unfold State.onOpt
    rw [show State.initial.settle = .ok Given.nothing from rfl]
    dsimp only
    rw [hgive]
    cases Given.nothing.setOpt? .variant s <;> rfl
  have hread : readLevel .program State.initial ["--variant=" ++ s] =
      match Given.nothing.setOpt? .variant s with
      | .ok g => .ok (⟨g, .none⟩, none)
      | .error m => .error (.misuse m) := by
    unfold readLevel
    simp only [hinit, hhelp, and_false, ↓reduceIte, hword, hlong, hopt]
    cases Given.nothing.setOpt? .variant s <;> rfl
  unfold parse parseLevels
  rw [hread]
  cases Given.nothing.setOpt? .variant s <;> rfl

/-- The command line sets the variant of a name, and refuses what is no name. -/
theorem setOpt?_variant (s : String) :
    (∀ v, Variant.ofName? s = some v →
      Given.nothing.setOpt? .variant s = .ok { Given.nothing with variant := some v }) ∧
    (Variant.ofName? s = none → ∃ m, Given.nothing.setOpt? .variant s = .error m) := by
  have hnames := Variant.mem_names_iff (s := s)
  constructor
  · intro v hv
    have hmem := hnames.mpr ⟨v, hv⟩
    have hne : s ≠ "" := by
      rintro rfl
      cases hv
    unfold Given.setOpt?
    dsimp only
    rw [if_neg hne, if_pos hmem, hv]
  · intro hv
    have hnot : s ∉ Variant.names := by
      intro hmem
      obtain ⟨v, hfound⟩ := hnames.mp hmem
      rw [hv] at hfound
      cases hfound
    by_cases hempty : s = ""
    · exact ⟨_, by unfold Given.setOpt?; dsimp only; rw [if_pos hempty]⟩
    · exact ⟨_, by unfold Given.setOpt?; dsimp only; rw [if_neg hempty, if_neg hnot]⟩

end CommandLine

/-! ## 2. The configuration -/

namespace Config

/-- The documents that set the variant and nothing else write a configuration. -/
theorem isWrittenBy_of_variant {v : Variant} {d : Document}
    (hd : d.settings = [("variant", v.name)]) : IsWrittenBy ⟨none, v, none⟩ d :=
  Or.inl (List.Perm.of_eq hd)

/-- A document that sets the variant to a name that none has is refused for this name. -/
theorem refuses_of_unknown {s : String} (hs : Variant.ofName? s = none) {d : Document}
    (hd : d.settings = [("variant", s)]) :
    ∃ place, parse (String.ofList d.chars) = .error (.refused place (.unknownVariant s)) := by
  obtain ⟨es, hes, hread⟩ := d.readEntries_chars (by simp [hd])
  rw [hd] at hes
  obtain ⟨key, v, rfl, hkey, hv⟩ : ∃ key v, es = [(key, v)] ∧ key.name = "variant" ∧
      v.value = .text s := by
    cases es with
    | nil => cases hes
    | cons e es =>
      obtain ⟨hfirst, hrest⟩ := List.cons.inj hes
      obtain ⟨hkey, hv⟩ := Prod.mk.inj hfirst
      obtain rfl := List.map_eq_nil_iff.mp hrest
      exact ⟨e.1, e.2, rfl, hkey, hv⟩
  have hname : decodeName s v.span = .error (.fault v.span (.unknownVariant s)) := by
    have hnone : Variant.ofConfigName? s = none := by
      cases hfound : Variant.ofConfigName? s with
      | none => rfl
      | some x =>
        rw [Variant.ofConfigName?_eq_some_iff, ← Variant.ofName?_eq_some_iff, hs] at hfound
        cases hfound
    simp only [decodeName, hnone]
  have hdecode : decode [(key, v)] = .error (.fault v.span (.unknownVariant s)) := by
    have hsorted : byName [(key, v)] = [(key, v)] := List.mergeSort_singleton _
    have hentry : decodeEntry empty (key, v) = .error (.fault v.span (.unknownVariant s)) := by
      simp [decodeEntry, hkey, decodeVariant, hv, hname]
    rw [decode, hsorted, decodeFrom, hentry]
  refine ⟨Place.ofSpan d.chars v.span, ?_⟩
  simp only [parse, String.toList_ofList, hread, hdecode]

end Config

/-! ## 3. The readers -/

namespace Variant

/-- A configuration of one line, with a name as it is written between quotes. -/
def lineOf (written : List Char) : String := "variant = \"" ++ String.ofList written ++ "\""

theorem exists_document {s : String} {written : List Char} (h : Spells s.toList written) :
    ∃ d : Document, d.settings = [("variant", s)] ∧ String.ofList d.chars = lineOf written := by
  refine ⟨.last (.setting (.spaced "variant" s written (by decide) h) Remark.nothing), rfl, ?_⟩
  have hremark : Remark.nothing.chars = [] := rfl
  refine String.toList_inj.mp ?_
  rw [String.toList_ofList, Document.chars, Line.chars, hremark, List.append_nil, lineOf]
  simp [Setting.keyOn, Setting.spaced, doubleQuote]

/-- **A name for all three readers**: searched, given and configured it is the same variant. -/
structure ReadsName (s : String) (written : List Char) (v : Variant) : Prop where
  name : v.name = s
  searched : ofName? s = some v
  given : CommandLine.parse ["--variant=" ++ s] = .ok ⟨none, false, none, none, some v, false, none⟩
  configured : Config.parse (lineOf written) = .ok ⟨none, v, none⟩

/-- **A name for no reader.** -/
structure RejectsName (s : String) (written : List Char) : Prop where
  searched : ofName? s = none
  given : ∃ m, CommandLine.parse ["--variant=" ++ s] = .error (.misuse m)
  configured : ∃ place,
    Config.parse (lineOf written) = .error (.refused place (.unknownVariant s))

theorem readsName_or_rejectsName {s : String} {written : List Char}
    (hwritten : Spells s.toList written) : (∃ v, ReadsName s written v) ∨ RejectsName s written := by
  obtain ⟨hknown, hunknown⟩ := CommandLine.setOpt?_variant s
  obtain ⟨d, hd, htext⟩ := exists_document hwritten
  have hparse := CommandLine.parse_variant s
  cases hfound : ofName? s with
  | some v =>
    have hname : v.name = s := ofName?_eq_some_iff.mp hfound
    rw [hknown v hfound] at hparse
    have hconfig := Config.parse_of_isWrittenBy (Config.isWrittenBy_of_variant (hname ▸ hd))
    rw [htext] at hconfig
    exact Or.inl ⟨v, hname, hfound, hparse, hconfig⟩
  | none =>
    obtain ⟨m, hm⟩ := hunknown hfound
    rw [hm] at hparse
    have hconfig := Config.refuses_of_unknown hfound hd
    rw [htext] at hconfig
    exact Or.inr ⟨hfound, ⟨m, hparse⟩, hconfig⟩

/-- A name that is said on a command line is that of the variant that is asked for. -/
theorem ofName?_of_mem_items {w : CommandLine.Arrangement} (hplaced : w.IsPlaced)
    (hsay : w.IsSayable) {name : String} (hname : .opt .variant name ∈ w.items) :
    ∃ v, ofName? name = some v ∧ w.args.variant = some v := by
  -- the name is said before the subcommand: the other level does not know the option
  have houter : .opt .variant name ∈ CommandLine.said w.outer := by
    rcases List.mem_append.mp hname with houter | hinner
    · exact houter
    · have hknown := CommandLine.isKnown_of_mem_said hplaced.inner hinner
      have hnot : ¬ CommandLine.Name.IsKnown .init (.opt .variant) := by decide
      exact absurd hknown hnot
  have hsayable : (ofName? name).isSome = true := hsay.outer.each _ houter
  obtain ⟨v, hv⟩ := Option.isSome_iff_exists.mp hsayable
  have hvalue := hsay.outer.valueOf?_eq_some_iff.mpr houter
  refine ⟨v, hv, ?_⟩
  rw [CommandLine.Arrangement.args_eq]
  simp [hvalue, hv]

/-- **One variant for all three readers, or none.** Every text can be written between quotes, and
    however it is written, it is a name for all three readers or for none. So every name on a
    command line that is accepted is found by the search, and the variant found is the one asked
    for. -/
theorem readers_agree :
    (∀ s : String, (∃ written, Spells s.toList written) ∧
      ∀ written, Spells s.toList written → (∃ v, ReadsName s written v) ∨ RejectsName s written) ∧
    ∀ (words : List String) (a : CommandLine.Args), CommandLine.parse words = .ok a →
      ∃ w : CommandLine.Arrangement, w.IsPlaced ∧ w.IsSayable ∧ w.words = words ∧
        ∀ name, .opt .variant name ∈ w.items → ∃ v, ofName? name = some v ∧ a.variant = some v := by
  refine ⟨fun s => ⟨⟨_, spells_escape s.toList⟩, fun _ => readsName_or_rejectsName⟩, ?_⟩
  intro words a hparse
  obtain ⟨w, hplaced, hsay, hwords, rfl⟩ := CommandLine.parse_eq_ok_iff.mp hparse
  exact ⟨w, hplaced, hsay, hwords, fun name hname => ofName?_of_mem_items hplaced hsay hname⟩

/-- A name is known to all three readers also where one of its letters is written by its number, and
    no name in capitals is known to any. -/
theorem readers_agree_on_sync :
    (∃ v, ReadsName "sync" "s\\u0079nc".toList v) ∧ RejectsName "SYNC" "SYNC".toList ∧
    ∃ w : CommandLine.Arrangement, w.words = ["--variant", "compile"] ∧
      ∀ name, .opt .variant name ∈ w.items → ofName? name = some .compile := by
  obtain ⟨hread, hsaid⟩ := readers_agree
  have hplain (c : Char) (h : isPrintable c = true ∧ c ≠ doubleQuote ∧ c ≠ backslash) :
      SpellsChar c [c] := .plain h.1 h.2.1 h.2.2
  have hnumber : SpellsChar 'y' "\\u0079".toList :=
    @SpellsChar.number 'y' 'u' [('0', 0), ('0', 0), ('7', 7), ('9', 9)] (by decide) (by decide) rfl
  have hsync : Spells "sync".toList "s\\u0079nc".toList :=
    .cons (hplain 's' (by decide)) (.cons hnumber
      (.cons (hplain 'n' (by decide)) (.cons (hplain 'c' (by decide)) .nil)))
  have hcapitals : Spells "SYNC".toList "SYNC".toList := spells_escape "SYNC".toList
  obtain ⟨w, -, -, hwords, hfound⟩ := hsaid ["--variant", "compile"]
    ⟨none, false, none, none, some .compile, false, none⟩ rfl
  refine ⟨?_, ?_, w, hwords, fun name hname => ?_⟩
  · rcases (hread "sync").2 _ hsync with hsome | hnone
    · exact hsome
    · cases hnone.searched
  · rcases (hread "SYNC").2 _ hcapitals with ⟨v, hv⟩ | hnone
    · cases hv.searched
    · exact hnone
  · obtain ⟨v, hv, hcompile⟩ := hfound name hname
    cases hcompile
    exact hv

end Variant

end SuiteDriver
