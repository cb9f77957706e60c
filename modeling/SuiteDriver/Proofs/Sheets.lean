import SuiteDriver.Proofs.ReadInLine
import SuiteDriver.Toml.Place

/-!
# Texts of rows

A row sets a bare key to a value of any kind, written on one line; a sheet is a text of rows. It is
read row by row: each row gives the entry that it gives alone, at spans that count what follows it.
So a span in an entry stands in its row, and the place that it is shown at is that in the row alone,
only in a line further down.

* `Row`, `Sheet`: rows, and the texts that they make;
* `Row.read_keyOn`: a row is read as its entry, moved by what follows;
* `Sheet.readEntries_chars`: so is every row of a sheet;
* `Sheet.exists_holds`: where a row stands in its sheet;
* `Place.ofSpan_of_split`: and where a span of it is shown.
-/

namespace SuiteDriver.Toml

/-! ## 1. Rows -/

/-- **A line that sets a key to a value.** -/
structure Row where
  indent : Blanks
  key : String
  before : Blanks
  after : Blanks
  written : List Char
  value : Value
  remark : Remark
  bare : key.toList ≠ [] ∧ key.toList.all isBareKey = true
  oneLine : IsOneLine written
  starts : ∀ c, written.head? = some c → isBlank c = false
  reads : Toml.value written = some (.ok value, [])

/-- An entry with every span changed. -/
def mapEntry (f : Span → Span) (e : Key × Located Value) : Key × Located Value :=
  (e.1.mapSpan f, e.2.mapSpans f)

theorem Remark.feed_not_mem_chars (r : Remark) : '\n' ∉ r.chars := by
  obtain ⟨⟨blanks, hblanks⟩, comment⟩ := r
  have hfree : '\n' ∉ blanks := fun h => by
    cases List.all_eq_true.mp hblanks _ h
  cases comment with
  | none => simpa [Remark.chars] using hfree
  | some text =>
    have hprintable : '\n' ∉ text.val := fun h => by
      cases List.all_eq_true.mp text.property _ h
    simpa [Remark.chars, hfree] using hprintable

theorem LineEnd.count_chars (e : LineEnd) : e.chars.count '\n' = 1 := by
  cases e <;> rfl

/-- Either line end ends with a line feed. -/
theorem LineEnd.exists_eq_append (e : LineEnd) : ∃ f, e.chars = f ++ ['\n'] := by
  cases e with
  | feed => exact ⟨[], rfl⟩
  | returnFeed => exact ⟨['\r'], rfl⟩

/-- A remark ends its line. -/
theorem Remark.endsLine_chars (r : Remark) {s : List Char} (hs : AtLineEnd s) :
    EndsLine (r.chars ++ s) := by
  obtain ⟨blanks, comment⟩ := r
  intro c hc
  unfold Remark.chars at hc
  rw [List.append_assoc] at hc
  cases comment with
  | none =>
    have hblank : ∀ d, s.head? = some d → isBlank d = false := by
      intro d hd
      rcases hs.head?_cases hd with rfl | rfl <;> decide
    rw [List.nil_append, skipBlanks_append blanks hblank] at hc
    exact Or.inr (hs.head?_cases hc)
  | some text =>
    rw [List.cons_append, skipBlanks_append blanks (by rintro d ⟨⟩; decide)] at hc
    exact Or.inl (Option.some.inj hc).symm

namespace Row

/-- A row from its key on, up to the end of its value. -/
def keyOn (r : Row) : List Char :=
  r.key.toList ++ (r.before.val ++ '=' :: (r.after.val ++ r.written))

/-- A row as it is written. -/
def chars (r : Row) : List Char := r.indent.val ++ (r.keyOn ++ r.remark.chars)

/-- **The entry of a row**, at its spans if nothing follows the value. -/
def entry (r : Row) : Key × Located Value :=
  (⟨r.key, ⟨r.keyOn.length, (r.before.val ++ '=' :: (r.after.val ++ r.written)).length⟩⟩,
    ⟨⟨r.written.length, 0⟩, r.value⟩)

/-- The entry of a row with so many characters after its value. -/
def entryBefore (r : Row) (k : Nat) : Key × Located Value := mapEntry (Span.moved k) r.entry

/-- Every span of a row's entry lies in the row. -/
theorem within (r : Row) : mapEntry (Span.cut r.keyOn.length) r.entry = r.entry := by
  have hvalue := (isStable_valueWithin deepest).reads r.written r.value [] r.oneLine r.reads
  have hle : r.written.length ≤ r.keyOn.length := by
    simp only [keyOn, List.length_append, List.length_cons]
    omega
  refine congrArg₂ Prod.mk ?_ (congrArg₂ Located.mk ?_ (within_of_le hvalue.within hle))
  · simp [Key.mapSpan, Span.cut, entry]
  · simp [Span.cut, entry, hle]

/-- **A row is read as its entry**, moved by what follows on its line and after it. -/
theorem read_keyOn (r : Row) {rest : List Char} (hrest : EndsLine rest) :
    Statement.read (r.keyOn ++ rest) = some (statementOf (r.entryBefore rest.length), rest) := by
  have hvalue := ((isStable_valueWithin deepest).reads r.written r.value [] r.oneLine
    r.reads).append rest hrest
  have hlocated : located Toml.value (r.written ++ rest) =
      some (.ok (r.entryBefore rest.length).2, rest) := by
    rw [located_eq, show Toml.value (r.written ++ rest) = _ from hvalue]
    simp [Except.map, entryBefore, mapEntry, entry, Located.mapSpans, HasSpans.mapSpans, Span.moved]
  have hstarts : ∀ c, (r.written ++ rest).head? = some c → isBlank c = false := by
    intro c hc
    cases hwritten : r.written with
    | nil =>
      have hreads := r.reads
      rw [hwritten] at hreads
      cases hreads
    | cons d w =>
      rw [hwritten] at hc
      exact r.starts c (by rw [hwritten]; exact hc)
  have hshape : r.keyOn ++ rest =
      r.key.toList ++ (r.before.val ++ '=' :: (r.after.val ++ (r.written ++ rest))) := by
    simp [keyOn]
  rw [hshape, read_bare r.bare r.before r.after hstarts hlocated, ← hshape]
  have hstop : (r.before.val ++ '=' :: (r.after.val ++ (r.written ++ rest))).length =
      (r.before.val ++ '=' :: (r.after.val ++ r.written)).length + rest.length := by
    simp only [List.length_append, List.length_cons]
    omega
  rw [hstop, List.length_append]
  rfl

/-- A row has no line end in it. -/
theorem feed_not_mem_chars (r : Row) : '\n' ∉ r.chars := by
  have hblanks (b : Blanks) : '\n' ∉ b.val := fun h => by
    cases List.all_eq_true.mp b.property _ h
  have hkey : '\n' ∉ r.key.toList := fun h => by
    cases List.all_eq_true.mp r.bare.2 _ h
  have hwritten : '\n' ∉ r.written := fun h => (r.oneLine _ h).1 rfl
  simp [chars, keyOn, hblanks, hkey, hwritten, r.remark.feed_not_mem_chars]

/-- A row starts with a blank or a key. -/
theorem head?_chars_ne (r : Row) (s : List Char) :
    (r.chars ++ s).head? ≠ some byteOrderMark := by
  intro h
  obtain ⟨c, t, hc, hfirst⟩ := exists_cons_of_bare r.bare
    (r.before.val ++ '=' :: (r.after.val ++ (r.written ++ (r.remark.chars ++ s))))
  have hshape : r.chars ++ s = r.indent.val ++ c :: t := by
    rw [← hfirst]
    simp [chars, keyOn]
  rw [hshape] at h
  rcases head?_blanks_append r.indent h with hblank | hkey
  · cases hblank
  · cases hkey
    cases hc

theorem chars_ne_nil (r : Row) : r.chars ≠ [] := by
  simp [chars, keyOn]

end Row

/-! ## 2. Sheets -/

/-- **A text of rows**, with line ends between them; the last row may have one as well. -/
inductive Sheet
  | blank
  | last (row : Row)
  | more (row : Row) (lineEnd : LineEnd) (rest : Sheet)

namespace Sheet

/-- The rows of a sheet, from the first to the last. -/
def rows : Sheet → List Row
  | blank => []
  | last r => [r]
  | more r _ rest => r :: rest.rows

/-- A sheet as it is written. -/
def chars : Sheet → List Char
  | blank => []
  | last r => r.chars
  | more r e rest => r.chars ++ (e.chars ++ rest.chars)

/-- The text of a sheet. -/
def text (s : Sheet) : String := String.ofList s.chars

/-- The entries of a sheet, row by row. -/
def entries : Sheet → Entries
  | blank => []
  | last r => [r.entryBefore r.remark.chars.length]
  | more r e rest =>
    r.entryBefore (r.remark.chars ++ (e.chars ++ rest.chars)).length :: rest.entries

theorem names_entries (s : Sheet) : s.entries.names = s.rows.map Row.key := by
  induction s with
  | blank => rfl
  | last r => rfl
  | more r e rest ih => exact congrArg (r.key :: ·) ih

/-- **Every row of a sheet is read as its entry.** -/
theorem statementsWithin_chars (s : Sheet) {n : Nat} (hn : s.rows.length < n) :
    statementsWithin n s.chars = some (s.entries.map statementOf) := by
  induction s generalizing n with
  | blank =>
    obtain ⟨n, rfl⟩ : ∃ m, n = m + 1 := ⟨n - 1, by simp [rows] at hn; omega⟩
    rfl
  | last r =>
    obtain ⟨n, rfl⟩ : ∃ m, n = m + 2 := ⟨n - 2, by simp [rows] at hn; omega⟩
    have hread := r.read_keyOn (r.remark.endsLine_chars .text)
    rw [List.append_nil] at hread
    have hstart := exists_cons_of_bare r.bare
      (r.before.val ++ '=' :: (r.after.val ++ (r.written ++ r.remark.chars)))
    rw [chars, Row.chars, statementsWithin_of_read r.indent (by simpa [Row.keyOn] using hstart) hread
      (finishLine?_remark r.remark)]
    rfl
  | more r e rest ih =>
    obtain ⟨n, rfl⟩ : ∃ m, n = m + 1 := ⟨n - 1, by omega⟩
    have hless : rest.rows.length < n := by simpa [rows] using hn
    have hread := r.read_keyOn (r.remark.endsLine_chars (.line e rest.chars))
    have hstart := exists_cons_of_bare r.bare (r.before.val ++ '=' ::
      (r.after.val ++ (r.written ++ (r.remark.chars ++ (e.chars ++ rest.chars)))))
    rw [chars, Row.chars, List.append_assoc, List.append_assoc,
      statementsWithin_of_read r.indent (by simpa [Row.keyOn] using hstart) hread
        (finishLine?_remark_append r.remark e rest.chars), ih hless]
    rfl

theorem length_rows_le (s : Sheet) : s.rows.length ≤ s.chars.length := by
  have hrow (r : Row) : 1 ≤ r.chars.length := List.length_pos_iff.mpr r.chars_ne_nil
  induction s with
  | blank => exact Nat.zero_le _
  | last r => exact hrow r
  | more r e rest ih =>
    have hfirst := hrow r
    simp only [rows, chars, List.length_cons, List.length_append]
    omega

theorem statements?_chars (s : Sheet) : statements? s.chars = some (s.entries.map statementOf) := by
  have hmark : s.chars.head? ≠ some byteOrderMark := by
    cases s with
    | blank => exact nofun
    | last r => simpa [chars] using r.head?_chars_ne []
    | more r e rest => exact r.head?_chars_ne _
  rw [statements?_eq_statementsWithin hmark,
    s.statementsWithin_chars (Nat.lt_succ_of_le s.length_rows_le)]

/-- **A sheet is read as the entries of its rows**, if no key is set twice. -/
theorem readEntries_chars (s : Sheet) (hkeys : (s.rows.map Row.key).Nodup) :
    readEntries s.chars = .ok s.entries :=
  readEntries_of_statements s.statements?_chars (s.names_entries ▸ hkeys)

/-! ## 3. Where a row stands -/

/-- **A row in its sheet**: what stands in front of it, on `i` lines, and what follows it. -/
structure Holds (s : Sheet) (i : Nat) (r : Row) (front rest : List Char) : Prop where
  chars : s.chars = front ++ (r.chars ++ rest)
  lines : front.count '\n' = i
  start : front = [] ∨ ∃ f, front = f ++ ['\n']
  stop : AtLineEnd rest
  entry : r.entryBefore (r.remark.chars ++ rest).length ∈ s.entries

theorem exists_holds {s : Sheet} {i : Nat} {r : Row} (h : s.rows[i]? = some r) :
    ∃ front rest, s.Holds i r front rest := by
  induction s generalizing i with
  | blank => simp [rows] at h
  | last r' =>
    cases i with
    | succ i => simp [rows] at h
    | zero =>
      obtain rfl : r' = r := by simpa [rows] using h
      exact ⟨[], [], by simp [chars], rfl, Or.inl rfl, .text, by simp [entries]⟩
  | more r' e rest ih =>
    cases i with
    | zero =>
      obtain rfl : r' = r := by simpa [rows] using h
      exact ⟨[], _, rfl, rfl, Or.inl rfl, .line e rest.chars, List.mem_cons_self⟩
    | succ i =>
      obtain ⟨front, after, hchars, hlines, hstart, hstop, hentry⟩ := ih (by simpa [rows] using h)
      refine ⟨r'.chars ++ (e.chars ++ front), after, ?_, ?_, Or.inr ?_, hstop,
        List.mem_cons_of_mem _ hentry⟩
      · simp [chars, hchars]
      · rw [List.count_append, List.count_append, e.count_chars, hlines,
          List.count_eq_zero.mpr r'.feed_not_mem_chars]
        omega
      · obtain ⟨f, hf⟩ := e.exists_eq_append
        rcases hstart with rfl | ⟨g, rfl⟩
        · exact ⟨r'.chars ++ f, by simp [hf]⟩
        · exact ⟨r'.chars ++ (e.chars ++ g), by simp⟩

end Sheet

/-! ## 4. Where a span is shown -/

theorem lastLine_append {front s : List Char} (hfront : front = [] ∨ ∃ f, front = f ++ ['\n'])
    (hs : '\n' ∉ s) : lastLine (front ++ s) = s := by
  have hall : ∀ c ∈ s.reverse, decide (c ≠ '\n') = true := by
    intro c hc
    refine decide_eq_true fun h => hs ?_
    rw [← h]
    exact List.mem_reverse.mp hc
  unfold lastLine
  rw [List.reverse_append, List.takeWhile_append_of_pos hall]
  rcases hfront with rfl | ⟨f, rfl⟩
  · simp
  · simp

theorem firstLine_append {s rest : List Char} (hs : '\n' ∉ s) :
    firstLine (s ++ rest) = s ++ firstLine rest := by
  unfold firstLine
  refine List.takeWhile_append_of_pos fun c hc => decide_eq_true fun h => hs ?_
  rw [← h]
  exact hc

/-- At the end of a line at most one half of the line end belongs to the line. -/
theorem AtLineEnd.firstLine_cases {s : List Char} (h : AtLineEnd s) :
    firstLine s = [] ∨ firstLine s = ['\r'] := by
  cases h with
  | text => exact Or.inl rfl
  | line e s =>
    cases e with
    | feed => exact Or.inl rfl
    | returnFeed => exact Or.inr rfl

theorem byteCount_append (s t : List Char) : byteCount (s ++ t) = byteCount s + byteCount t := by
  induction s with
  | nil => simp [byteCount]
  | cons c s ih =>
    simp only [byteCount, List.cons_append, List.foldr_cons] at ih ⊢
    omega

theorem length_le_byteCount (s : List Char) : s.length ≤ byteCount s := by
  induction s with
  | nil => exact Nat.le_refl _
  | cons c s ih =>
    have hsize := c.utf8Size_pos
    simp only [byteCount, List.foldr_cons, List.length_cons] at ih ⊢
    omega

/-- How a place is made from what stands in its line in front of the span, and from the span on. -/
theorem Place.ofSpan_append {front s t rest : List Char}
    (hfront : front = [] ∨ ∃ f, front = f ++ ['\n']) (hline : '\n' ∉ s ++ t) {span : Span}
    (hspan : span.start = t.length + rest.length) :
    ofSpan (front ++ (s ++ (t ++ rest))) span =
      { line := front.count '\n' + 1
        column := s.length + 1
        quoted := s ++ (t ++ firstLine rest)
        marks := max 1 (min (byteCount ((t ++ rest).take (span.start - span.stop)))
          (byteCount (s ++ (t ++ firstLine rest)) - s.length)) } := by
  obtain ⟨hs, ht⟩ : '\n' ∉ s ∧ '\n' ∉ t := by simpa using hline
  have hstart : (front ++ (s ++ (t ++ rest))).length - span.start = (front ++ s).length := by
    simp only [List.length_append, hspan]
    omega
  have hcount : (front ++ s).count '\n' = front.count '\n' := by
    rw [List.count_append, List.count_eq_zero.mpr hs, Nat.add_zero]
  unfold ofSpan
  rw [hstart, ← List.append_assoc]
  simp only [List.take_left', List.drop_left', lastLine_append hfront hs, firstLine_append ht, hcount]

/-- **A span in a line is shown as in the line alone**, but for the number of the line. -/
theorem Place.ofSpan_of_split {front line rest : List Char}
    (hfront : front = [] ∨ ∃ f, front = f ++ ['\n']) (hline : '\n' ∉ line) {span : Span}
    (hspan : span.start ≤ line.length) :
    let p := ofSpan (front ++ (line ++ rest)) (span.moved rest.length)
    let alone := ofSpan line span
    p.line = front.count '\n' + 1 ∧ p.column = alone.column ∧
      p.quoted = line ++ firstLine rest ∧ p.marks = alone.marks := by
  obtain ⟨s, t, rfl, ht⟩ : ∃ s t, line = s ++ t ∧ t.length = span.start :=
    ⟨line.take (line.length - span.start), line.drop (line.length - span.start),
      (List.take_append_drop _ _).symm, by rw [List.length_drop]; omega⟩
  have hmovedStart : (span.moved rest.length).start = t.length + rest.length := by
    simp [Span.moved, ht]
  have hplace := ofSpan_append hfront hline hmovedStart
  have hstart : span.start = t.length + ([] : List Char).length := by simp [ht]
  have halone := ofSpan_append (Or.inl rfl) hline hstart
  -- what is marked ends with the span, so the end of the line does not cut it off
  have hmarks (u : List Char) : byteCount (t.take (span.start - span.stop)) ≤
      byteCount (s ++ (t ++ u)) - s.length := by
    have hsplit := byteCount_append (t.take (span.start - span.stop))
      (t.drop (span.start - span.stop))
    have hlength := length_le_byteCount s
    rw [List.take_append_drop] at hsplit
    simp only [byteCount_append]
    omega
  have hmoved : (span.moved rest.length).start - (span.moved rest.length).stop =
      span.start - span.stop := by
    simp only [Span.moved]
    omega
  have hfirst : (t ++ rest).take (span.start - span.stop) = t.take (span.start - span.stop) :=
    List.take_append_of_le_length (by omega)
  simp only [List.nil_append, List.append_nil] at halone
  rw [List.append_assoc, hplace, halone]
  refine ⟨rfl, rfl, (List.append_assoc s t _).symm, ?_⟩
  simp only
  rw [hmoved, hfirst, Nat.min_eq_left (hmarks _), Nat.min_eq_left (hmarks _)]

end SuiteDriver.Toml
