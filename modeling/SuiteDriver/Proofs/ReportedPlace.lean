import SuiteDriver.Fault
import SuiteDriver.Proofs.LeastOffender
import SuiteDriver.Proofs.StandingParts

/-!
# Where a fault is reported

A fault is laid to a part of the text: to a key, to a value or to the header of a table. It is reported
with the line and the column at which that part starts, and with the whole of that line. Lines in front
of a text that say nothing move the line and change nothing else.

* `Place.Points`, `Place.points_ofSpan`: a place names the line and the column where a text goes on;
* `Config.Blames`: what each fault of an entry is laid to;
* `Config.exists_blames`: it stands in the text, where the fault is reported;
* `readEntries_fillers_append`: lines in front that say nothing are read as nothing;
* `Config.refused_where_it_stands`: every fault is reported where it is written.
-/

namespace SuiteDriver

open Toml

/-! ## 1. Lines of a text -/

namespace Text

theorem length_splitAt (mark : Char) (s : List Char) :
    (splitAt mark s).length = s.count mark + 1 := by
  induction s with
  | nil => rfl
  | cons c s ih =>
    rw [splitAt]
    split
    · next hc => rw [List.length_cons, ih, hc, List.count_cons_self]
    · next hc =>
      rw [List.count_cons_of_ne hc, ← ih]
      cases hrest : splitAt mark s with
      | nil => exact absurd hrest (splitAt_ne_nil mark s)
      | cons p ps => rfl

/-- The first part goes up to the first mark. -/
theorem head?_splitAt (mark : Char) (s : List Char) :
    (splitAt mark s).head? = some (s.takeWhile (· ≠ mark)) := by
  induction s with
  | nil => rfl
  | cons c s ih =>
    rw [splitAt]
    split
    · next hc => simp [hc]
    · next hc =>
      cases hrest : splitAt mark s with
      | nil => exact absurd hrest (splitAt_ne_nil mark s)
      | cons p ps =>
        rw [hrest] at ih
        obtain rfl := Option.some.inj ih
        simp [hc]

end Text

namespace Toml

/-- **A text cut at the start of a line**, as far as a mark in that line. -/
theorem exists_line_start (before : List Char) :
    ∃ earlier inLine, before = earlier ++ inLine ∧ (earlier = [] ∨ ∃ f, earlier = f ++ ['\n']) ∧
      '\n' ∉ inLine := by
  induction before with
  | nil => exact ⟨[], [], rfl, Or.inl rfl, List.not_mem_nil⟩
  | cons c before ih =>
    obtain ⟨earlier, inLine, rfl, hstart, hfree⟩ := ih
    rcases hstart with rfl | ⟨f, rfl⟩
    · -- there is no line feed further on, so the line starts at this character or after it
      by_cases hc : c = '\n'
      · exact ⟨[c], inLine, rfl, Or.inr ⟨[], by rw [hc]; rfl⟩, hfree⟩
      · refine ⟨[], c :: inLine, rfl, Or.inl rfl, fun h => ?_⟩
        rcases List.mem_cons.mp h with h | h
        · exact hc h.symm
        · exact hfree h
    · exact ⟨c :: (f ++ ['\n']), inLine, rfl, Or.inr ⟨c :: f, rfl⟩, hfree⟩

/-- **The line in the middle of a text** is the part of that number. -/
theorem getElem?_splitAt_line {earlier inLine after : List Char}
    (hstart : earlier = [] ∨ ∃ f, earlier = f ++ ['\n']) (hfree : '\n' ∉ inLine) :
    (Text.splitAt '\n' (earlier ++ (inLine ++ after)))[earlier.count '\n']? =
      some (inLine ++ firstLine after) := by
  have hline : (Text.splitAt '\n' (inLine ++ after))[0]? = some (inLine ++ firstLine after) := by
    rw [← List.head?_eq_getElem?, Text.head?_splitAt, ← firstLine_append hfree]
    rfl
  rcases hstart with rfl | ⟨f, rfl⟩
  · exact hline
  · have hlength : (Text.splitAt '\n' f).length = (f ++ ['\n']).count '\n' := by
      rw [Text.length_splitAt, List.count_append]
      rfl
    rw [List.append_assoc, List.singleton_append, Text.splitAt_append, ← hlength,
      List.getElem?_append_right (Nat.le_refl _), Nat.sub_self, hline]

/-- **A place points to where a text goes on** after `before`: its line is the one after so many line
    feeds, its column the one after so many characters of that line, and the line is quoted. -/
structure Place.Points (p : Place) (source before : List Char) : Prop where
  line : p.line = before.count '\n' + 1
  column : ∃ earlier inLine, before = earlier ++ inLine ∧
    (earlier = [] ∨ ∃ f, earlier = f ++ ['\n']) ∧ '\n' ∉ inLine ∧ p.column = inLine.length + 1
  quoted : (Text.splitAt '\n' source)[p.line - 1]? = some p.quoted

/-- How a place is made from what stands in its line in front of the span, and from what follows. -/
theorem Place.ofSpan_in_line {earlier inLine after : List Char}
    (hstart : earlier = [] ∨ ∃ f, earlier = f ++ ['\n']) (hfree : '\n' ∉ inLine) {span : Span}
    (hspan : span.start = after.length) :
    ofSpan (earlier ++ (inLine ++ after)) span =
      { line := earlier.count '\n' + 1
        column := inLine.length + 1
        quoted := inLine ++ firstLine after
        marks := max 1 (min (byteCount (after.take (span.start - span.stop)))
          (byteCount (inLine ++ firstLine after) - inLine.length)) } := by
  have hline : '\n' ∉ inLine ++ [] := by rwa [List.append_nil]
  have hlength : span.start = ([] : List Char).length + after.length := by
    rw [hspan, List.length_nil, Nat.zero_add]
  exact ofSpan_append hstart hline hlength

/-- **The place of a span points to where the span starts.** -/
theorem Place.points_ofSpan (before : List Char) {after : List Char} {span : Span}
    (hspan : span.start = after.length) :
    (ofSpan (before ++ after) span).Points (before ++ after) before := by
  obtain ⟨earlier, inLine, rfl, hstart, hfree⟩ := exists_line_start before
  have hcount : (earlier ++ inLine).count '\n' = earlier.count '\n' := by
    rw [List.count_append, List.count_eq_zero.mpr hfree, Nat.add_zero]
  rw [List.append_assoc, ofSpan_in_line hstart hfree hspan]
  exact ⟨by rw [hcount], ⟨earlier, inLine, rfl, hstart, hfree, rfl⟩,
    getElem?_splitAt_line hstart hfree⟩

/-! ## 2. Lines in front -/

/-- A place so many lines further down. -/
def Place.below (n : Nat) (p : Place) : Place := { p with line := p.line + n }

/-- Whole lines in front of a text move a span down by their number. -/
theorem Place.ofSpan_lines_append {front : List Char} (hfront : front = [] ∨ ∃ f, front = f ++ ['\n'])
    (before : List Char) {after : List Char} {span : Span} (hspan : span.start = after.length) :
    ofSpan (front ++ (before ++ after)) span =
      (ofSpan (before ++ after) span).below (front.count '\n') := by
  obtain ⟨earlier, inLine, rfl, hstart, hfree⟩ := exists_line_start before
  have hstart' : front ++ earlier = [] ∨ ∃ f, front ++ earlier = f ++ ['\n'] := by
    rcases hstart with rfl | ⟨f, rfl⟩
    · rwa [List.append_nil]
    · exact Or.inr ⟨front ++ f, (List.append_assoc ..).symm⟩
  rw [List.append_assoc, ofSpan_in_line hstart hfree hspan, ← List.append_assoc front,
    ofSpan_in_line hstart' hfree hspan, below, List.count_append]
  simp only [Place.mk.injEq, and_true]
  omega

/-- A line that says nothing: blanks, perhaps a comment, and its end. -/
abbrev Filler : Type := Remark × LineEnd

/-- Lines that say nothing, as they are written. -/
def fillers (ls : List Filler) : List Char := ls.flatMap fun l => l.1.chars ++ l.2.chars

theorem fillers_cons (l : Filler) (ls : List Filler) :
    fillers (l :: ls) = l.1.chars ++ (l.2.chars ++ fillers ls) := by
  simp [fillers]

theorem count_fillers (ls : List Filler) : (fillers ls).count '\n' = ls.length := by
  induction ls with
  | nil => rfl
  | cons l ls ih =>
    have hremark : l.1.chars.count '\n' = 0 := List.count_eq_zero.mpr l.1.feed_not_mem_chars
    rw [fillers_cons, List.count_append, List.count_append, hremark, l.2.count_chars, ih, List.length_cons]
    omega

/-- Lines are whole: they end with a line feed. -/
theorem fillers_eq_nil_or (ls : List Filler) : fillers ls = [] ∨ ∃ f, fillers ls = f ++ ['\n'] := by
  induction ls with
  | nil => exact Or.inl rfl
  | cons l ls ih =>
    obtain ⟨u, hu⟩ := l.2.exists_eq_append
    rw [fillers_cons, hu]
    rcases ih with hnil | ⟨f, hf⟩
    · exact Or.inr ⟨l.1.chars ++ u, by simp [hnil]⟩
    · exact Or.inr ⟨l.1.chars ++ (u ++ '\n' :: f), by simp [hf]⟩

theorem head?_fillers_append_ne (ls : List Filler) {s : List Char}
    (hs : s.head? ≠ some byteOrderMark) : (fillers ls ++ s).head? ≠ some byteOrderMark := by
  cases ls with
  | nil => exact hs
  | cons l ls =>
    intro h
    rw [fillers_cons, List.append_assoc, List.append_assoc] at h
    rcases head?_remark_append l.1 h with hblank | hcomment | hend
    · cases hblank
    · cases hcomment
    · exact absurd ((AtLineEnd.line l.2 (fillers ls ++ s)).head?_cases hend) (by decide)

theorem statementsWithin_fillers_append (ls : List Filler) (s : List Char) (n : Nat) :
    statementsWithin n (fillers ls ++ s) = statementsWithin n s := by
  induction ls with
  | nil => rfl
  | cons l ls ih =>
    rw [fillers_cons, List.append_assoc, List.append_assoc,
      statementsWithin_congr (skipFiller_remark_append l.1 l.2 _), ih]

/-- **Lines in front that say nothing are read as nothing.** What is read stands as far from the end of
    the text as before. -/
theorem readEntries_fillers_append (ls : List Filler) {s : List Char}
    (hs : s.head? ≠ some byteOrderMark) : readEntries (fillers ls ++ s) = readEntries s := by
  have hlength : s.length < (fillers ls ++ s).length + 1 := by
    rw [List.length_append]
    omega
  have hstatements : statements? (fillers ls ++ s) = statements? s := by
    rw [statements?_eq_statementsWithin (head?_fillers_append_ne ls hs),
      statements?_eq_statementsWithin hs, statementsWithin_fillers_append]
    exact statementsWithin_bound hlength (Nat.lt_succ_self _)
  unfold readEntries
  rw [hstatements]

end Toml

/-! ## 3. What a fault is laid to -/

namespace Config

/-- **What a fault of an entry is laid to**: a key that is not known to the key, a value that is refused
    to what the entry is pointed at by, and of a table for the variant its key or what is under it. -/
inductive Blames (e : Key × Located Value) : Problem → Part → Prop
  | unknownField (hk : e.1.name ∉ ["language", "variant", "project_dir"]) :
      Blames e (.unknownField e.1.name) (.key e.1)
  | notText {found : Shape} (hk : e.1.name = "language" ∨ e.1.name = "project_dir")
      (hv : shape? e.2.value = some found) : Blames e (.notText found) (.ofEntry e)
  | unknownVariant {s : String} (hk : e.1.name = "variant") (hv : e.2.value = .text s)
      (hs : Variant.ofConfigName? s = none) : Blames e (.unknownVariant s) (.ofEntry e)
  | variantForm (hk : e.1.name = "variant") (htext : ∀ s, e.2.value ≠ .text s)
      (htable : ∀ origin es, e.2.value ≠ .table origin es) : Blames e .variantForm (.ofEntry e)
  | noName {origin : Origin} (hk : e.1.name = "variant") (hv : e.2.value = .table origin []) :
      Blames e .noName (.ofEntry e)
  | severalNames {origin : Origin} {es : Entries} (hk : e.1.name = "variant")
      (hv : e.2.value = .table origin es) (hes : 2 ≤ es.length) :
      Blames e .severalNames (.ofEntry e)
  | unknownName {origin : Origin} {under : Key × Located Value} (hk : e.1.name = "variant")
      (hv : e.2.value = .table origin [under]) (hs : Variant.ofConfigName? under.1.name = none) :
      Blames e (.unknownVariant under.1.name) (.key under.1)
  | underName {origin : Origin} {under : Key × Located Value} {problem : Problem}
      (hk : e.1.name = "variant") (hv : e.2.value = .table origin [under])
      (h : checkEmpty under.2 = .error (.fault under.2.span problem)) :
      Blames e problem (.ofEntry under)

variable {es : Entries} {e : Key × Located Value} {x : Refusal} {span : Span} {problem : Problem}

/-- What is refused is refused for one of the entries. -/
theorem exists_refuses_of_decodeFrom {c : Config} (h : decodeFrom c es = .error x) :
    ∃ e ∈ es, Refuses e x := by
  induction es generalizing c with
  | nil => cases h
  | cons e es ih =>
    unfold decodeFrom at h
    split at h
    · obtain ⟨e', he', hrefuses⟩ := ih h
      exact ⟨e', List.mem_cons_of_mem _ he', hrefuses⟩
    · next hentry =>
      cases h
      exact ⟨e, List.mem_cons_self, decodeEntry_eq_error_iff.mp hentry⟩

theorem exists_refuses_of_decode (h : decode es = .error x) : ∃ e ∈ es, Refuses e x := by
  obtain ⟨e, he, hrefuses⟩ := exists_refuses_of_decodeFrom h
  exact ⟨e, (byName_perm es).mem_iff.mp he, hrefuses⟩

theorem decodeText_eq_fault {v : Located Value} (h : decodeText v = .error (.fault span problem)) :
    v.span = span ∧ ∃ found, shape? v.value = some found ∧ problem = .notText found := by
  unfold decodeText at h
  split at h
  · cases h
  · split at h
    · next hshape =>
      cases h
      exact ⟨rfl, _, hshape, rfl⟩
    · cases h

theorem decodeName_eq_fault {name : String} {stretch : Span}
    (h : decodeName name stretch = .error (.fault span problem)) :
    stretch = span ∧ Variant.ofConfigName? name = none ∧ problem = .unknownVariant name := by
  unfold decodeName at h
  split at h
  · cases h
  · next hname =>
    cases h
    exact ⟨rfl, hname, rfl⟩

theorem checkEmpty_eq_fault {v : Located Value} (h : checkEmpty v = .error (.fault span problem)) :
    v.span = span := by
  unfold checkEmpty at h
  split at h
  all_goals cases h
  all_goals rfl

/-- **A fault is laid to a part that stands in the text**, where the fault is reported. -/
theorem exists_blames {source : List Char} (he : EntryStands source e)
    (hvalue : e.2.value.Stands source) (h : Refuses e (.fault span problem)) :
    ∃ part, Blames e problem part ∧ part.StandsIn source ∧ part.span = span := by
  cases h with
  | unknown hk => exact ⟨_, .unknownField hk, he.key, rfl⟩
  | text hk h =>
    obtain ⟨rfl, found, hshape, rfl⟩ := decodeText_eq_fault h
    exact ⟨_, .notText hk hshape, he.part, he.span⟩
  | variant hk h =>
    unfold decodeVariant at h
    split at h
    · next hv =>
      obtain ⟨rfl, hname, rfl⟩ := decodeName_eq_fault h
      exact ⟨_, .unknownVariant hk hv hname, he.part, he.span⟩
    · next hv =>
      cases h
      exact ⟨_, .noName hk hv, he.part, he.span⟩
    · next origin key under hv =>
      -- the entry in the table stands in the text as well
      rw [hv] at hvalue
      obtain ⟨hunder, -⟩ := Value.stands_table_iff.mp hvalue _ (List.mem_singleton.mpr rfl)
      split at h
      · next hname =>
        cases h
        obtain ⟨rfl, hnone, rfl⟩ := decodeName_eq_fault hname
        exact ⟨_, .unknownName hk hv hnone, hunder.key, rfl⟩
      · split at h
        · next hempty =>
          cases h
          obtain rfl := checkEmpty_eq_fault hempty
          exact ⟨_, .underName hk hv hempty, hunder.part, hunder.span⟩
        · cases h
    · next origin entries hnone hone hv =>
      cases h
      refine ⟨_, .severalNames hk hv ?_, he.part, he.span⟩
      rcases entries with _ | ⟨⟨key, under⟩, _ | ⟨e', entries⟩⟩
      · exact absurd rfl hnone
      · exact absurd rfl (hone key under)
      · simp
    · next htext hnone hone hseveral =>
      cases h
      exact ⟨_, .variantForm hk htext hseveral, he.part, he.span⟩

/-! ## 4. Where it is reported -/

/-- An error so many lines further down. -/
def ParseError.below (n : Nat) : ParseError → ParseError
  | .refused p problem => .refused (p.below n) problem
  | other => other

/-- **A fault comes from an entry and stands in the text.** -/
theorem exists_part_of_fault {source : List Char} (hread : readEntries source = .ok es)
    (h : decode es = .error (.fault span problem)) :
    ∃ e ∈ es, ∃ part, Blames e problem part ∧ ∃ before written after,
      source = before ++ (written ++ after) ∧ part.ReadFrom (written ++ after) after ∧
        span.start = (written ++ after).length := by
  obtain ⟨e, he, hrefuses⟩ := exists_refuses_of_decode h
  obtain ⟨hentry, hvalue⟩ := stands_of_readEntries hread e he
  obtain ⟨part, hblames, ⟨s, after, ⟨before, hsource⟩, hpart⟩, hspan⟩ :=
    exists_blames hentry hvalue hrefuses
  obtain ⟨written, rfl⟩ := hpart.suffix
  refine ⟨e, he, part, hblames, before, written, after, hsource.symm, hpart, ?_⟩
  rw [← hspan, hpart.span_eq]

/-- **Every fault is reported where it is written**, in a text without a byte order mark. It is laid to
    a key, a value or a header of an entry, which is read at the line and the column that are told, and
    that line is quoted. Lines in front that say nothing change the number of the line alone, by as many
    as they are, and leave every other error and every configuration as it is. -/
theorem refused_where_it_stands (text : String) (hmark : text.toList.head? ≠ some byteOrderMark) :
    (∀ p problem, parse text = .error (.refused p problem) →
      ∃ es e part before written after, readEntries text.toList = .ok es ∧ e ∈ es ∧
        Blames e problem part ∧ text.toList = before ++ (written ++ after) ∧
        part.ReadFrom (written ++ after) after ∧ p.Points text.toList before) ∧
    ∀ ls : List Filler, parse (String.ofList (fillers ls) ++ text) =
      (parse text).mapError (ParseError.below ls.length) := by
  constructor
  · intro p problem h
    unfold parse at h
    dsimp only at h
    split at h
    · next flaw _ =>
      cases flaw <;> cases h
    · next es hread =>
      split at h
      · cases h
      · cases h
      · next hfault =>
        cases h
        obtain ⟨e, he, part, hblames, before, written, after, hsource, hpart, hspan⟩ :=
          exists_part_of_fault hread hfault
        refine ⟨es, e, part, before, written, after, hread, he, hblames, hsource, hpart, ?_⟩
        rw [hsource]
        exact Place.points_ofSpan before hspan
  · intro ls
    have hchars : (String.ofList (fillers ls) ++ text).toList = fillers ls ++ text.toList := by
      rw [String.toList_append, String.toList_ofList]
    unfold parse
    dsimp only
    rw [hchars, readEntries_fillers_append ls hmark]
    cases hread : readEntries text.toList with
    | error flaw => cases flaw <;> rfl
    | ok es =>
      dsimp only
      cases hdecode : decode es with
      | ok c => rfl
      | error x =>
        cases x with
        | unreadable => rfl
        | fault span problem =>
          obtain ⟨-, -, -, -, before, written, after, hsource, -, hspan⟩ :=
            exists_part_of_fault hread hdecode
          dsimp only
          rw [hsource, Place.ofSpan_lines_append (fillers_eq_nil_or ls) before hspan,
            count_fillers]
          rfl

/-- The header of a table under a variant's name, with a setting below it: it is reported in its line,
    behind a tab, and two lines further down with a blank line and a comment in front. -/
theorem refused_where_it_stands_of_header :
    let text := "# π\r\n\t[ variant . \"sync\" ]\r\nx = '''\nß'''"
    text.toList.head? ≠ some byteOrderMark ∧
      ∃ p before after, parse text = .error (.refused p .filledTable) ∧
        text.toList = before ++ after ∧ p.Points text.toList before ∧ p.line = 2 ∧ p.column = 2 ∧
        parse ("  \r\n# é\n" ++ text) = .error (.refused (p.below 2) .filledTable) := by
  intro text
  have hmark : text.toList.head? ≠ some byteOrderMark := by decide
  have hparse : parse text = .error (.refused
      ⟨2, 2, "\t[ variant . \"sync\" ]\r".toList, 20⟩ .filledTable) := by decide +kernel
  obtain ⟨hplaced, hmoved⟩ := refused_where_it_stands text hmark
  obtain ⟨-, -, -, before, written, after, -, -, -, hsource, -, hpoints⟩ := hplaced _ _ hparse
  have hbelow := hmoved [(⟨⟨[' ', ' '], rfl⟩, none⟩, .returnFeed),
    (⟨⟨[], rfl⟩, some ⟨[' ', 'é'], rfl⟩⟩, .feed)]
  rw [hparse] at hbelow
  exact ⟨hmark, _, before, _, hparse, hsource, hpoints, rfl, rfl, hbelow⟩

/-- Not every error names a place, and a mark counts only in front of everything. A header with one
    segment too many is refused as data without any place, and a text that is read behind a byte order
    mark is malformed with a comment in front of the mark. -/
theorem depth_has_no_place :
    let deep := '[' :: ((List.replicate deepest ['a', '.']).flatten ++ ['a', ']'])
    deep.head? ≠ some byteOrderMark ∧ parse (String.ofList deep) = .error .tooDeep ∧
      (∀ p problem, parse (String.ofList deep) ≠ .error (.refused p problem)) ∧
      (Cause.config .tooDeep).className = "TomlData" ∧
      (Cause.config .tooDeep).messages = ["recursion limit\n"] ∧
      parse "\ufeffvariant = \"sync\"\n" = .ok ⟨none, .sync, none⟩ ∧
      parse ("# c\n" ++ "\ufeffvariant = \"sync\"\n") = .error .malformed := by
  intro deep
  have hdeep : parse (String.ofList deep) = .error .tooDeep := by decide +kernel
  refine ⟨by decide, hdeep, fun p problem h => ?_, rfl, rfl, by decide +kernel, by decide +kernel⟩
  rw [hdeep] at h
  cases h

end Config

end SuiteDriver
