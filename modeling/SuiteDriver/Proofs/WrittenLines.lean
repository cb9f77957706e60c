import SuiteDriver.Proofs.DistinctKeys
import SuiteDriver.Proofs.WrittenText

/-!
# Documents of texts are read back

A document that sets keys to texts is read as the entries that it sets, in their order. What stands
between its lines, and around the parts of a line, leaves no trace: the reader comes from each
setting to the next in the same way, whatever it has to skip, and every setting adds its entry as
long as no key is set twice.

* `skipFiller_eq`: how lines are skipped, without a bound on their number;
* `read_bare`, `Setting.read_keyOn`: one assignment is read back, and so is one setting;
* `Document.statementsWithin_chars`: so is every setting of a document;
* `Document.readEntries_chars`: they build its entries.
-/

namespace SuiteDriver.Toml

/-! ## 1. What is skipped -/

theorem dropWhile_append_of_head? {p : Char → Bool} {xs ys : List Char}
    (hxs : xs.all p = true) (hys : ∀ c, ys.head? = some c → p c = false) :
    (xs ++ ys).dropWhile p = ys := by
  rw [List.dropWhile_append_of_pos (List.all_eq_true.mp hxs)]
  cases ys with
  | nil => rfl
  | cons c ys => rw [List.dropWhile_cons_of_neg (by simp [hys c rfl])]

/-- Blanks are skipped up to what is no blank. -/
theorem skipBlanks_append (b : Blanks) {s : List Char}
    (hs : ∀ c, s.head? = some c → isBlank c = false) : skipBlanks (b.val ++ s) = s :=
  dropWhile_append_of_head? b.property hs

theorem lineEnd?_chars (e : LineEnd) (s : List Char) : lineEnd? (e.chars ++ s) = some s := by
  cases e <;> rfl

/-- **Where nothing more is on a line**: at the end of the text, and in front of a line end. -/
inductive AtLineEnd : List Char → Prop
  | text : AtLineEnd []
  | line (e : LineEnd) (s : List Char) : AtLineEnd (e.chars ++ s)

theorem AtLineEnd.head?_cases {s : List Char} (h : AtLineEnd s) {c : Char}
    (hc : s.head? = some c) : c = '\n' ∨ c = '\r' := by
  cases h with
  | text => cases hc
  | line e s =>
    cases e with
    | feed => exact Or.inl (Option.some.inj hc).symm
    | returnFeed => exact Or.inr (Option.some.inj hc).symm

/-- **A remark is skipped**, up to the end of its line. -/
theorem skip_remark (r : Remark) {s : List Char} (hs : AtLineEnd s) :
    skipComment (skipBlanks (r.chars ++ s)) = s := by
  obtain ⟨blanks, comment⟩ := r
  have hend : ∀ c, s.head? = some c → isBlank c = false ∧ isPrintable c = false := by
    intro c hc
    rcases hs.head?_cases hc with rfl | rfl <;> decide
  unfold Remark.chars
  rw [List.append_assoc]
  cases comment with
  | none =>
    rw [List.nil_append, skipBlanks_append blanks fun c hc => (hend c hc).1]
    unfold skipComment
    split
    · exact absurd (hs.head?_cases rfl) (by decide)
    · rfl
  | some text =>
    rw [skipBlanks_append blanks (by rintro c ⟨⟩; decide)]
    exact dropWhile_append_of_head? text.property fun c hc => (hend c hc).2

theorem finishLine?_remark (r : Remark) : finishLine? r.chars = some [] := by
  have hskip := skip_remark r .text
  rw [List.append_nil] at hskip
  unfold finishLine?
  rw [hskip]

theorem finishLine?_remark_append (r : Remark) (e : LineEnd) (s : List Char) :
    finishLine? (r.chars ++ (e.chars ++ s)) = some s := by
  have hend := lineEnd?_chars e s
  unfold finishLine?
  rw [skip_remark r (.line e s)]
  split
  · next hnil =>
    rw [hnil] at hend
    cases hend
  · exact hend

theorem length_lt_of_lineEnd? {s r : List Char} (h : lineEnd? s = some r) :
    r.length < s.length := by
  unfold lineEnd? at h
  split at h
  · cases h
    simp only [List.length_cons]
    omega
  · cases h
    simp only [List.length_cons]
    omega
  · cases h

theorem length_skip_le (s : List Char) : (skipComment (skipBlanks s)).length ≤ s.length := by
  have hblanks : (skipBlanks s).length ≤ s.length := (List.dropWhile_sublist _).length_le
  have hcomment (t : List Char) : (skipComment t).length ≤ t.length := by
    unfold skipComment
    split
    · exact Nat.le_succ_of_le (List.dropWhile_sublist _).length_le
    · exact Nat.le_refl _
  exact Nat.le_trans (hcomment _) hblanks

/-- Every bound that is not below the length of a text allows for all lines in it. -/
theorem skipLines_congr {n m : Nat} {s : List Char} (hn : s.length ≤ n) (hm : s.length ≤ m) :
    skipLines n s = skipLines m s := by
  induction n generalizing m s with
  | zero =>
    obtain rfl : s = [] := List.eq_nil_of_length_eq_zero (Nat.le_zero.mp hn)
    cases m <;> rfl
  | succ n ih =>
    cases m with
    | zero =>
      obtain rfl : s = [] := List.eq_nil_of_length_eq_zero (Nat.le_zero.mp hm)
      rfl
    | succ m =>
      rw [skipLines, skipLines]
      cases hline : lineEnd? (skipComment (skipBlanks s)) with
      | none => rfl
      | some r =>
        have hshort := length_lt_of_lineEnd? hline
        have hskip := length_skip_le s
        exact ih (by omega) (by omega)

/-- **One line is skipped after the other**, as long as there is nothing else in them. -/
theorem skipFiller_eq (s : List Char) :
    skipFiller s =
      match lineEnd? (skipComment (skipBlanks s)) with
      | some r => skipFiller r
      | none => skipComment (skipBlanks s) := by
  have hbound : skipFiller s = skipLines (s.length + 1) s :=
    skipLines_congr (Nat.le_refl _) (Nat.le_succ _)
  rw [hbound, skipLines]
  cases hline : lineEnd? (skipComment (skipBlanks s)) with
  | none => rfl
  | some r =>
    have hshort := length_lt_of_lineEnd? hline
    have hskip := length_skip_le s
    exact skipLines_congr (by omega) (Nat.le_refl _)

theorem skipFiller_remark (r : Remark) : skipFiller r.chars = [] := by
  have hskip := skip_remark r .text
  rw [List.append_nil] at hskip
  rw [skipFiller_eq, hskip]
  rfl

theorem skipFiller_remark_append (r : Remark) (e : LineEnd) (s : List Char) :
    skipFiller (r.chars ++ (e.chars ++ s)) = skipFiller s := by
  rw [skipFiller_eq, skip_remark r (.line e s), lineEnd?_chars]

/-! ## 2. Assignments -/

/-- Characters that no bare key holds: blanks, line ends and the marks that mean something. -/
def apart : List Char :=
  [' ', '\t', '\n', '\r', '.', '=', ',', '[', ']', '\x7b', '\x7d', '#', doubleQuote, singleQuote,
    byteOrderMark]

theorem not_mem_apart_of_isBareKey {c : Char} (h : isBareKey c = true) : c ∉ apart := by
  intro hmem
  have hall : apart.all (fun d => !isBareKey d) = true := by decide
  have hnot := List.all_eq_true.mp hall c hmem
  simp [h] at hnot

theorem isWordChar_of_isBareKey {c : Char} (h : isBareKey c = true) : isWordChar c = true := by
  have hnot := not_mem_apart_of_isBareKey h
  simp only [apart, List.mem_cons, List.not_mem_nil, or_false, not_or] at hnot
  simp [isWordChar, isBlank, hnot]

theorem isMark_of_isBareKey {c : Char} (h : isBareKey c = true) : isMark c = false := by
  have hnot := not_mem_apart_of_isBareKey h
  simp only [apart, List.mem_cons, List.not_mem_nil, or_false, not_or] at hnot
  simp [isMark, hnot]

/-- A text that starts with no mark is not quoted. -/
theorem quoted_of_not_isMark {c : Char} (h : isMark c = false) (s : List Char) :
    quoted (c :: s) = none := by
  unfold quoted
  rcases s with _ | ⟨d, _ | ⟨e, r⟩⟩ <;> simp [h]

theorem skipFiller_key (b : Blanks) {c : Char} (hc : isBareKey c = true) (s : List Char) :
    skipFiller (b.val ++ c :: s) = c :: s := by
  have hnot := not_mem_apart_of_isBareKey hc
  simp only [apart, List.mem_cons, List.not_mem_nil, or_false, not_or] at hnot
  have hblank : isBlank c = false := by simp [isBlank, hnot]
  have hskip : skipComment (skipBlanks (b.val ++ c :: s)) = c :: s := by
    rw [skipBlanks_append b (by rintro d ⟨⟩; exact hblank)]
    unfold skipComment
    split
    · next heq => exact absurd (List.cons.inj heq).1 (by simp [hnot])
    · rfl
  have hline : lineEnd? (c :: s) = none := by
    unfold lineEnd?
    split
    · next heq => exact absurd (List.cons.inj heq).1 (by simp [hnot])
    · next heq => exact absurd (List.cons.inj heq).1 (by simp [hnot])
    · rfl
  rw [skipFiller_eq, hskip, hline]

section BareKey

variable {key : String} (hkey : key.toList ≠ [] ∧ key.toList.all isBareKey = true)
include hkey

/-- What a bare key stands in front of starts with a character of it. -/
theorem exists_cons_of_bare (s : List Char) :
    ∃ c t, isBareKey c = true ∧ key.toList ++ s = c :: t := by
  obtain ⟨hne, hbare⟩ := hkey
  cases hlist : key.toList with
  | nil => exact absurd hlist hne
  | cons c r => exact ⟨c, _, List.all_eq_true.mp hbare c (by simp [hlist]), rfl⟩

/-- A bare key is read, up to where it ends. -/
theorem keySegment_bare {rest : List Char}
    (hrest : ∀ c, rest.head? = some c → isWordChar c = false) :
    keySegment (key.toList ++ rest) =
      some (.ok ⟨key, ⟨(key.toList ++ rest).length, rest.length⟩⟩, rest) := by
  obtain ⟨hne, hbare⟩ := id hkey
  have hword : ∀ c ∈ key.toList, isWordChar c = true := fun c hc =>
    isWordChar_of_isBareKey (List.all_eq_true.mp hbare c hc)
  have htake : (key.toList ++ rest).takeWhile isWordChar = key.toList := by
    rw [List.takeWhile_append_of_pos hword]
    cases rest with
    | nil => simp
    | cons c rest => simp [hrest c rfl]
  have hdrop : (key.toList ++ rest).dropWhile isWordChar = rest :=
    dropWhile_append_of_head? (List.all_eq_true.mpr hword) hrest
  have hquoted : quoted (key.toList ++ rest) = none := by
    obtain ⟨c, t, hc, heq⟩ := exists_cons_of_bare hkey rest
    rw [heq]
    exact quoted_of_not_isMark (isMark_of_isBareKey hc) _
  unfold keySegment
  dsimp only
  rw [hquoted, htake, hdrop]
  cases hlist : key.toList with
  | nil => exact absurd hlist hne
  | cons c r =>
    rw [hlist] at hbare
    dsimp only
    rw [if_pos hbare, ← hlist]
    simp [orMalformed, Except.map]

theorem dottedKey_bare (b : Blanks) (t : List Char) :
    dottedKey (key.toList ++ (b.val ++ '=' :: t)) =
      some (.ok ([], ⟨key, ⟨(key.toList ++ (b.val ++ '=' :: t)).length,
        (b.val ++ '=' :: t).length⟩⟩), b.val ++ '=' :: t) := by
  have hend : ∀ c, (b.val ++ '=' :: t).head? = some c → isWordChar c = false := by
    intro c hc
    rw [List.head?_append] at hc
    cases hb : b.val.head? with
    | none =>
      rw [hb] at hc
      cases hc
      decide
    | some d =>
      rw [hb] at hc
      cases hc
      simp [isWordChar, List.all_eq_true.mp b.property c (List.mem_of_head? hb)]
  have hequals : skipBlanks (b.val ++ '=' :: t) = '=' :: t :=
    skipBlanks_append b (by rintro c ⟨⟩; decide)
  have hsegment := keySegment_bare hkey hend
  have hsegments (n : Nat) : segments (n + 1) (key.toList ++ (b.val ++ '=' :: t)) =
      some (.ok ([], ⟨key, ⟨(key.toList ++ (b.val ++ '=' :: t)).length,
        (b.val ++ '=' :: t).length⟩⟩), b.val ++ '=' :: t) := by
    rw [segments, hsegment]
    dsimp only
    rw [hequals]
    rfl
  have hlength : (key.toList ++ (b.val ++ '=' :: t)).length =
      (key.toList ++ (b.val ++ t)).length + 1 := by
    simp only [List.length_append, List.length_cons]
    omega
  unfold dottedKey
  rw [hlength, hsegments, hlength]
  rfl

/-- What is read behind a bare key that is set to something is what is read of the value. -/
theorem read_bare_eq (before after : Blanks) {w : List Char}
    (hw : ∀ c, w.head? = some c → isBlank c = false) :
    Statement.read (key.toList ++ (before.val ++ '=' :: (after.val ++ w))) =
      (located value w).map fun p => (p.1.map (.assignment [] ⟨key,
        ⟨(key.toList ++ (before.val ++ '=' :: (after.val ++ w))).length,
          (before.val ++ '=' :: (after.val ++ w)).length⟩⟩), p.2) := by
  have hbefore := skipBlanks_append before (s := '=' :: (after.val ++ w)) (by rintro c ⟨⟩; decide)
  have hassignment : assignment skipBlanks value
      (key.toList ++ (before.val ++ '=' :: (after.val ++ w))) =
      (located value w).map fun p => (Assignment.pair? (.ok ([], ⟨key,
        ⟨(key.toList ++ (before.val ++ '=' :: (after.val ++ w))).length,
          (before.val ++ '=' :: (after.val ++ w)).length⟩⟩)) p.1, p.2) := by
    unfold assignment
    rw [dottedKey_bare hkey]
    dsimp only
    rw [hbefore]
    show Option.map _ (located value (skipBlanks (after.val ++ w))) = _
    rw [skipBlanks_append after hw]
  -- the key does not start with a bracket, so the statement is no header
  obtain ⟨c, t, hc, hfirst⟩ := exists_cons_of_bare hkey (before.val ++ '=' :: (after.val ++ w))
  have hbracket : c ≠ '[' := by
    rintro rfl
    cases hc
  have hread : Statement.read (c :: t) = (assignment skipBlanks value (c :: t)).map fun p =>
      (p.1.map fun a => .assignment a.key.1 a.key.2 a.value, p.2) := by
    unfold Statement.read
    split
    · next heq => exact absurd (List.cons.inj heq).1 hbracket
    · next heq => exact absurd (List.cons.inj heq).1 hbracket
    · rfl
  rw [hfirst] at hassignment ⊢
  rw [hread, hassignment, Option.map_map]
  refine congrArg (Option.map · _) (funext fun ⟨v, rest⟩ => ?_)
  cases v <;> rfl

/-- **A bare key that is set to a value** is read as that assignment. -/
theorem read_bare (before after : Blanks) {w rest : List Char} {v : Located Value}
    (hw : ∀ c, w.head? = some c → isBlank c = false)
    (hvalue : located value w = some (.ok v, rest)) :
    Statement.read (key.toList ++ (before.val ++ '=' :: (after.val ++ w))) =
      some (.ok (.assignment [] ⟨key,
        ⟨(key.toList ++ (before.val ++ '=' :: (after.val ++ w))).length,
          (before.val ++ '=' :: (after.val ++ w)).length⟩⟩ v), rest) := by
  rw [read_bare_eq hkey before after hw, hvalue]
  rfl

end BareKey

/-- **From one assignment to what follows its line.** -/
theorem statementsWithin_of_read (indent : Blanks) {s rest next : List Char}
    {x : Except Flaw Statement} (hs : ∃ c t, isBareKey c = true ∧ s = c :: t)
    (hread : Statement.read s = some (x, rest)) (hfinish : finishLine? rest = some next) (n : Nat) :
    statementsWithin (n + 1) (indent.val ++ s) = (statementsWithin n next).map (x :: ·) := by
  obtain ⟨c, t, hc, rfl⟩ := hs
  rw [statementsWithin, skipFiller_key indent hc]
  dsimp only
  rw [hread]
  dsimp only
  rw [hfinish]

/-- A text without a byte order mark is read from its first character on. -/
theorem statements?_eq_statementsWithin {s : List Char} (h : s.head? ≠ some byteOrderMark) :
    statements? s = statementsWithin (s.length + 1) s := by
  cases s with
  | nil => rfl
  | cons c r =>
    have hc : c ≠ byteOrderMark := fun hsame => h (congrArg some hsame)
    unfold statements?
    dsimp only
    rw [if_neg hc]

namespace Setting

/-- The first character of a setting, after its indent. -/
theorem exists_keyOn_eq (s : Setting) : ∃ c t, isBareKey c = true ∧ s.keyOn = c :: t :=
  exists_cons_of_bare s.bare _

theorem located_text (s : Setting) {rest : List Char} (hrest : rest.head? ≠ some doubleQuote) :
    ∃ span, located value (doubleQuote :: (s.written ++ doubleQuote :: rest)) =
      some (.ok ⟨span, .text s.text⟩, rest) := by
  have htext := textValue_spells s.spelled hrest
  rw [String.ofList_toList] at htext
  have hvalue : value (doubleQuote :: (s.written ++ doubleQuote :: rest)) =
      some (.ok (.text s.text), rest) := by
    unfold value deepest valueWithin
    rw [htext]
    rfl
  exact ⟨_, by unfold located Reader.spanned; rw [hvalue]; rfl⟩

/-- **A setting is read back** as an assignment of its text to its key. -/
theorem read_keyOn (s : Setting) {rest : List Char} (hrest : rest.head? ≠ some doubleQuote) :
    ∃ a b, Statement.read (s.keyOn ++ rest) =
      some (.ok (.assignment [] ⟨s.key, a⟩ ⟨b, .text s.text⟩), rest) := by
  obtain ⟨b, hvalue⟩ := s.located_text hrest
  have hshape : s.keyOn ++ rest = s.key.toList ++ (s.before.val ++ '=' ::
      (s.after.val ++ doubleQuote :: (s.written ++ doubleQuote :: rest))) := by
    simp [keyOn]
  rw [hshape]
  exact ⟨_, b, read_bare s.bare s.before s.after (by rintro c ⟨⟩; decide) hvalue⟩

end Setting

/-! ## 3. Documents -/

/-- The statement that an entry is written by. -/
def statementOf (e : Key × Located Value) : Except Flaw Statement := .ok (.assignment [] e.1 e.2)

/-- **Entries of texts**, under these names and in this order. -/
def Entries.Are (es : Entries) (settings : List (String × String)) : Prop :=
  es.map (fun e => (e.1.name, e.2.value)) = settings.map fun p => (p.1, .text p.2)

theorem Entries.Are.names {es : Entries} {settings : List (String × String)}
    (h : es.Are settings) : es.names = settings.map Prod.fst := by
  have hsame := congrArg (List.map Prod.fst) h
  simpa [Entries.names, Function.comp_def] using hsame

theorem statementsWithin_congr {s t : List Char} (h : skipFiller s = skipFiller t) (n : Nat) :
    statementsWithin n s = statementsWithin n t := by
  cases n with
  | zero => rfl
  | succ n => rw [statementsWithin, statementsWithin, h]

/-- **From one setting to what follows its line.** -/
theorem statementsWithin_setting (s : Setting) {rest next : List Char}
    (hrest : rest.head? ≠ some doubleQuote) (hfinish : finishLine? rest = some next) (n : Nat) :
    ∃ e : Key × Located Value, (e.1.name, e.2.value) = (s.key, .text s.text) ∧
      statementsWithin (n + 1) (s.indent.val ++ (s.keyOn ++ rest)) =
        (statementsWithin n next).map (statementOf e :: ·) := by
  obtain ⟨a, b, hread⟩ := s.read_keyOn hrest
  obtain ⟨c, t, hc, hfirst⟩ := s.exists_keyOn_eq
  exact ⟨(⟨s.key, a⟩, ⟨b, .text s.text⟩), rfl,
    statementsWithin_of_read s.indent ⟨c, t ++ rest, hc, by rw [hfirst, List.cons_append]⟩ hread
      hfinish n⟩

theorem head?_blanks_append (b : Blanks) {s : List Char} {c : Char}
    (h : (b.val ++ s).head? = some c) : isBlank c = true ∨ s.head? = some c := by
  obtain ⟨blanks, hblanks⟩ := b
  cases blanks with
  | nil => exact Or.inr h
  | cons d blanks =>
    cases h
    exact Or.inl (List.all_eq_true.mp hblanks _ List.mem_cons_self)

/-- What a line ends with starts like a remark, or like what follows it. -/
theorem head?_remark_append (r : Remark) {s : List Char} {c : Char}
    (h : (r.chars ++ s).head? = some c) : isBlank c = true ∨ c = '#' ∨ s.head? = some c := by
  obtain ⟨blanks, comment⟩ := r
  unfold Remark.chars at h
  rw [List.append_assoc] at h
  rcases head?_blanks_append blanks h with hblank | hrest
  · exact Or.inl hblank
  · cases comment with
    | none => exact Or.inr (Or.inr hrest)
    | some text => exact Or.inr (Or.inl (Option.some.inj hrest).symm)

theorem head?_remark_append_ne (r : Remark) {s : List Char} (hs : AtLineEnd s) :
    (r.chars ++ s).head? ≠ some doubleQuote := by
  intro h
  rcases head?_remark_append r h with hblank | hcomment | hend
  · cases hblank
  · cases hcomment
  · exact absurd (hs.head?_cases hend) (by decide)

namespace Document

/-- **Every setting of a document is read back**, in its order. -/
theorem statementsWithin_chars (d : Document) {n : Nat} (hn : d.settings.length < n) :
    ∃ es : Entries, es.Are d.settings ∧ statementsWithin n d.chars = some (es.map statementOf) := by
  induction d generalizing n with
  | last l =>
    cases l with
    | filler r =>
      obtain ⟨n, rfl⟩ : ∃ m, n = m + 1 := ⟨n - 1, by omega⟩
      refine ⟨[], rfl, ?_⟩
      rw [chars, Line.chars, statementsWithin, skipFiller_remark]
      rfl
    | setting s r =>
      obtain ⟨n, rfl⟩ : ∃ m, n = m + 2 := ⟨n - 2, by simp [settings, Line.settings] at hn; omega⟩
      have hquote : r.chars.head? ≠ some doubleQuote := by
        simpa using head?_remark_append_ne r .text
      obtain ⟨e, he, hread⟩ := statementsWithin_setting s hquote (finishLine?_remark r) (n + 1)
      refine ⟨[e], by simp [Entries.Are, settings, Line.settings, Setting.pair, he], ?_⟩
      rw [chars, Line.chars, hread]
      rfl
  | more l e d ih =>
    cases l with
    | filler r =>
      obtain ⟨es, hes, hread⟩ := ih hn
      refine ⟨es, hes, ?_⟩
      rw [chars, Line.chars, statementsWithin_congr (skipFiller_remark_append r e d.chars), hread]
    | setting s r =>
      obtain ⟨n, rfl⟩ : ∃ m, n = m + 1 := ⟨n - 1, by omega⟩
      have hless : d.settings.length < n := by
        simp [settings, Line.settings] at hn
        omega
      obtain ⟨es, hes, hrest⟩ := ih hless
      obtain ⟨x, hx, hread⟩ := statementsWithin_setting s
        (head?_remark_append_ne r (.line e d.chars)) (finishLine?_remark_append r e d.chars) n
      refine ⟨x :: es, ?_, ?_⟩
      · unfold Entries.Are at hes ⊢
        rw [List.map_cons, hx, hes]
        rfl
      · rw [chars, Line.chars, List.append_assoc, List.append_assoc, hread, hrest]
        rfl

/-- No document starts with a byte order mark. -/
theorem head?_chars_ne (d : Document) : d.chars.head? ≠ some byteOrderMark := by
  have hline (l : Line) {s : List Char} (hs : AtLineEnd s) :
      (l.chars ++ s).head? ≠ some byteOrderMark := by
    intro h
    cases l with
    | filler r =>
      rcases head?_remark_append r h with hblank | hcomment | hend
      · cases hblank
      · cases hcomment
      · exact absurd (hs.head?_cases hend) (by decide)
    | setting x r =>
      obtain ⟨c, t, hc, hfirst⟩ := x.exists_keyOn_eq
      rw [Line.chars, hfirst, List.append_assoc] at h
      rcases head?_blanks_append x.indent h with hblank | hkey
      · cases hblank
      · cases hkey
        cases hc
  cases d with
  | last l => simpa [chars] using hline l .text
  | more l e d => exact hline l (.line e d.chars)

theorem length_settings_le (d : Document) : d.settings.length ≤ d.chars.length := by
  have hline (l : Line) : l.settings.length ≤ l.chars.length := by
    cases l with
    | filler r => exact Nat.zero_le _
    | setting s r =>
      obtain ⟨c, t, -, hfirst⟩ := s.exists_keyOn_eq
      simp only [Line.settings, Line.chars, hfirst, List.length_append, List.length_cons,
        List.length_nil]
      omega
  induction d with
  | last l => exact hline l
  | more l e d ih =>
    have hfirst := hline l
    simp only [settings, chars, List.length_append]
    omega

/-- The statements of a document. -/
theorem statements?_chars (d : Document) :
    ∃ es : Entries, es.Are d.settings ∧ statements? d.chars = some (es.map statementOf) := by
  obtain ⟨es, hes, hread⟩ := d.statementsWithin_chars (Nat.lt_succ_of_le d.length_settings_le)
  exact ⟨es, hes, (statements?_eq_statementsWithin d.head?_chars_ne).trans hread⟩

end Document

/-- An assignment under a name that is still free adds its entry. -/
theorem step_assignment {built : Entries} {e : Key × Located Value}
    (hfree : e.1.name ∉ built.names) :
    Draft.step ⟨[], ⟨.header, built⟩, none⟩ (.assignment [] e.1 e.2) =
      .ok ⟨[], ⟨.header, built ++ [e]⟩, none⟩ := by
  have hnone : built.find? e.1.name = none := Entries.find?_eq_none_iff.mpr hfree
  have hadd : Table.assign [] e.1 e.2 ⟨.header, built⟩ = some ⟨.header, built ++ [e]⟩ := by
    simp [Table.assign, Table.under, Table.addNew?, Table.add, hnone]
  simp [Draft.step, Draft.assign, Table.under, hadd, orMalformed, Except.map]

/-- The entries of assignments are put behind what was built so far, if no name is there twice. -/
theorem foldlM_statements {built es : Entries} (hes : (built ++ es).names.Nodup) :
    (es.map statementOf).foldlM (fun d x => x.bind (Draft.step d)) ⟨[], ⟨.header, built⟩, none⟩ =
      .ok ⟨[], ⟨.header, built ++ es⟩, none⟩ := by
  induction es generalizing built with
  | nil => simp [pure, Except.pure]
  | cons e es ih =>
    have hrest : ((built ++ [e]) ++ es).names.Nodup := by
      rw [List.append_assoc]
      exact hes
    have hfree : e.1.name ∉ built.names := by
      intro hmem
      rw [Entries.names, List.map_append] at hes
      exact (List.nodup_append.mp hes).2.2 _ hmem _ List.mem_cons_self rfl
    have hstep : (statementOf e).bind (Draft.step ⟨[], ⟨.header, built⟩, none⟩) =
        .ok ⟨[], ⟨.header, built ++ [e]⟩, none⟩ := step_assignment hfree
    rw [List.map_cons, List.foldlM_cons, hstep]
    refine (ih hrest).trans ?_
    rw [List.append_assoc]
    rfl

/-- **Assignments under different names build their entries.** -/
theorem build_statements {es : Entries} (hes : es.names.Nodup) :
    build (es.map statementOf) = .ok es := by
  have hfold := @foldlM_statements [] es hes
  unfold build
  rw [show Draft.empty = ⟨[], ⟨.header, []⟩, none⟩ from rfl, hfold]
  rfl

/-- What is read as assignments under different names is read as their entries. -/
theorem readEntries_of_statements {s : List Char} {es : Entries}
    (h : statements? s = some (es.map statementOf)) (hes : es.names.Nodup) :
    readEntries s = .ok es := by
  unfold readEntries
  rw [h]
  exact build_statements hes

/-- **A document is read as the entries that it sets**, if it sets no key twice. -/
theorem Document.readEntries_chars (d : Document) (hkeys : (d.settings.map Prod.fst).Nodup) :
    ∃ es : Entries, es.Are d.settings ∧ readEntries d.chars = .ok es := by
  obtain ⟨es, hes, hread⟩ := d.statements?_chars
  exact ⟨es, hes, readEntries_of_statements hread (hes.names ▸ hkeys)⟩

end SuiteDriver.Toml
