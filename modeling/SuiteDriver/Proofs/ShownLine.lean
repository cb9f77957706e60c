import SuiteDriver.Command
import SuiteDriver.Shell.Split

/-!
# A command can be read off its line

A word is written in chunks, and each chunk is read back by itself: after it the reader stands
outside quotes again, with the chunk added to the word. What a chunk was written in is known from
what all its characters allow (`Fits`), so the walk that cuts a word into chunks never has to be
looked at as a whole.

* `Shell.splitFrom_quoteFrom`: a word is read back from the middle of a chunk on;
* `Shell.split_join`: a line of words splits into these words;
* `Command.split_line_eq_words`: the line of a command splits into what is run, and no other command
  has it.
-/

namespace SuiteDriver.Shell

/-! ## 1. Characters -/

/-- A character that needs no quotes is none of those that need them. -/
theorem ne_of_isBare {c d : Char} (hc : isBare c = true) (hd : isBare d = false) : c ≠ d := by
  rintro rfl
  rw [hc] at hd
  cases hd

theorem isBlank_of_isBare {c : Char} (h : isBare c = true) : isBlank c = false := by
  have hspace : c ≠ ' ' := ne_of_isBare h (by decide)
  have htab : c ≠ '\t' := ne_of_isBare h (by decide)
  have hline : c ≠ '\n' := ne_of_isBare h (by decide)
  simp [isBlank, hspace, htab, hline]

/-- Outside quotes it is added to the word. -/
theorem inWord_of_isBare {c : Char} (h : isBare c = true) (word : List Char) :
    Mode.inWord word c = .plain (word ++ [c]) := by
  have hsingle : c ≠ '\x27' := ne_of_isBare h (by decide)
  have hdouble : c ≠ '\x22' := ne_of_isBare h (by decide)
  have hescape : c ≠ '\x5c' := ne_of_isBare h (by decide)
  unfold Mode.inWord
  rw [if_neg hsingle, if_neg hdouble, if_neg hescape]

/-- A character that ends no word only leads further. -/
theorem splitFrom_cons {m : Mode} {c : Char} (h : m.ended c = []) (r : List Char) :
    splitFrom m (c :: r) = splitFrom (m.next c) r := by
  rw [splitFrom, h]
  exact Option.map_id'

/-! ## 2. One chunk -/

/-- **What is known of a chunk**: if a way of writing still fits, all its characters allow it. A
    caret that starts a chunk is put in single quotes although `isSingle` refuses it, so of single
    quotes nothing is asked but that they are not ended. -/
structure Fits (ok : Styles) (chunk : List Char) : Prop where
  bare : ok.bare = true → ∀ c ∈ chunk, isBare c = true
  single : ok.single = true → ∀ c ∈ chunk, c ≠ '\x27'

theorem Fits.first (c : Char) : Fits (Styles.first c) [c] := by
  unfold Styles.first
  split
  · next hc =>
    refine ⟨fun h => absurd h Bool.false_ne_true, fun _ d hd => ?_⟩
    rw [List.mem_singleton.mp hd, hc]
    decide
  · refine ⟨fun h d hd => ?_, fun h d hd => ?_⟩
    · rw [List.mem_singleton.mp hd]
      simpa [Styles.narrow] using h
    · rw [List.mem_singleton.mp hd]
      rintro rfl
      exact absurd h (by decide)

theorem Fits.narrow {ok : Styles} {chunk : List Char} (h : Fits ok chunk) (c : Char) :
    Fits (ok.narrow c) (chunk ++ [c]) := by
  refine ⟨fun hok => ?_, fun hok => ?_⟩
  · obtain ⟨hbefore, hc⟩ := Bool.and_eq_true_iff.mp hok
    exact List.forall_mem_append.mpr ⟨h.bare hbefore, List.forall_mem_singleton.mpr hc⟩
  · obtain ⟨hbefore, hc⟩ := Bool.and_eq_true_iff.mp hok
    refine List.forall_mem_append.mpr ⟨h.single hbefore, List.forall_mem_singleton.mpr ?_⟩
    rintro rfl
    exact absurd hc (by decide)

/-- Bare characters are added to the word one by one. -/
theorem splitFrom_bare {s : List Char} (h : ∀ c ∈ s, isBare c = true) (word rest : List Char) :
    splitFrom (.plain word) (s ++ rest) = splitFrom (.plain (word ++ s)) rest := by
  induction s generalizing word with
  | nil => rw [List.nil_append, List.append_nil]
  | cons c s ih =>
    obtain ⟨hc, hs⟩ := List.forall_mem_cons.mp h
    have hblank := isBlank_of_isBare hc
    rw [List.cons_append, splitFrom_cons (by simp [Mode.ended, hblank])]
    simp only [Mode.next, hblank, Bool.false_eq_true, ↓reduceIte, inWord_of_isBare hc]
    rw [ih hs, List.append_assoc, List.singleton_append]

/-- In single quotes everything up to the closing one is added. -/
theorem splitFrom_single {s : List Char} (h : ∀ c ∈ s, c ≠ '\x27') (word rest : List Char) :
    splitFrom (.single word) (s ++ '\x27' :: rest) = splitFrom (.plain (word ++ s)) rest := by
  induction s generalizing word with
  | nil => rw [List.nil_append, List.append_nil, splitFrom_cons rfl]; rfl
  | cons c s ih =>
    obtain ⟨hc, hs⟩ := List.forall_mem_cons.mp h
    rw [List.cons_append, splitFrom_cons rfl]
    simp only [Mode.next, if_neg hc]
    rw [ih hs, List.append_assoc, List.singleton_append]

/-- A character as it is written in double quotes is read as itself. -/
theorem splitFrom_escapeDouble (c : Char) (word rest : List Char) :
    splitFrom (.double word) (escapeDouble c ++ rest) =
      splitFrom (.double (word ++ [c])) rest := by
  unfold escapeDouble
  split
  · next hc =>
    -- only a quote and a backslash are escaped, and both can be
    rcases hc with rfl | rfl
    · exact (splitFrom_cons rfl _).trans (splitFrom_cons rfl _)
    · exact (splitFrom_cons rfl _).trans (splitFrom_cons rfl _)
  · next hc =>
    obtain ⟨hquote, hescape⟩ := not_or.mp hc
    rw [List.singleton_append, splitFrom_cons rfl]
    simp only [Mode.next, if_neg hquote, if_neg hescape]

theorem splitFrom_double (s word rest : List Char) :
    splitFrom (.double word) (s.flatMap escapeDouble ++ '\x22' :: rest) =
      splitFrom (.plain (word ++ s)) rest := by
  induction s generalizing word with
  | nil => rw [List.append_nil]; exact splitFrom_cons rfl _
  | cons c s ih =>
    rw [List.flatMap_cons, List.append_assoc, splitFrom_escapeDouble, ih, List.append_assoc,
      List.singleton_append]

/-- **A chunk is read back**, whichever way it is written. -/
theorem splitFrom_writeChunk {ok : Styles} {chunk : List Char} (h : Fits ok chunk)
    (word rest : List Char) :
    splitFrom (.plain word) (writeChunk ok chunk ++ rest) =
      splitFrom (.plain (word ++ chunk)) rest := by
  unfold writeChunk
  split
  · next hbare => exact splitFrom_bare (h.bare hbare) word rest
  split
  · next hsingle =>
    rw [List.cons_append, List.cons_append, List.append_assoc, splitFrom_cons rfl]
    exact splitFrom_single (h.single hsingle) word rest
  · rw [List.cons_append, List.cons_append, List.append_assoc, splitFrom_cons rfl]
    exact splitFrom_double chunk word rest

/-! ## 3. Words and lines -/

/-- **A word is read back from the middle of a chunk on.** -/
theorem splitFrom_quoteFrom {ok : Styles} {chunk : List Char} (h : Fits ok chunk)
    (s word rest : List Char) :
    splitFrom (.plain word) (quoteFrom chunk ok s ++ rest) =
      splitFrom (.plain (word ++ chunk ++ s)) rest := by
  induction s generalizing chunk ok word with
  | nil => rw [quoteFrom, splitFrom_writeChunk h, List.append_nil]
  | cons c s ih =>
    unfold quoteFrom
    split
    · rw [ih (h.narrow c)]
      simp only [List.append_assoc, List.singleton_append]
    · rw [List.append_assoc, splitFrom_writeChunk h, ih (Fits.first c)]
      simp only [List.append_assoc, List.singleton_append]

/-- A text that neither a blank nor a comment starts. -/
def StartsWord (s : List Char) : Prop := ∃ c r, s = c :: r ∧ isBlank c = false ∧ c ≠ '#'

theorem StartsWord.append {s : List Char} (h : StartsWord s) (rest : List Char) :
    StartsWord (s ++ rest) := by
  obtain ⟨c, r, rfl, hc⟩ := h
  exact ⟨c, r ++ rest, rfl, hc⟩

/-- There a word starts, and the reader may as well be in it. -/
theorem StartsWord.splitFrom_between {s : List Char} (h : StartsWord s) :
    splitFrom .between s = splitFrom (.plain []) s := by
  obtain ⟨c, r, rfl, hblank, hcomment⟩ := h
  rw [splitFrom_cons rfl, splitFrom_cons (by simp [Mode.ended, hblank])]
  simp only [Mode.next, hblank, hcomment, Bool.false_eq_true, ↓reduceIte]

theorem startsWord_writeChunk {ok : Styles} {c : Char} {chunk : List Char}
    (h : Fits ok (c :: chunk)) : StartsWord (writeChunk ok (c :: chunk)) := by
  unfold writeChunk
  split
  · next hbare =>
    have hc := h.bare hbare c List.mem_cons_self
    exact ⟨c, chunk, rfl, isBlank_of_isBare hc, ne_of_isBare hc (by decide)⟩
  split
  · exact ⟨_, _, rfl, by decide, by decide⟩
  · exact ⟨_, _, rfl, by decide, by decide⟩

theorem startsWord_quoteFrom {ok : Styles} {c : Char} {chunk : List Char}
    (h : Fits ok (c :: chunk)) (s : List Char) : StartsWord (quoteFrom (c :: chunk) ok s) := by
  induction s generalizing chunk ok with
  | nil => exact startsWord_writeChunk h
  | cons d s ih =>
    unfold quoteFrom
    split
    · exact ih (h.narrow d)
    · exact (startsWord_writeChunk h).append _

/-- **A written word is read back as a word**, also the empty one. -/
theorem splitFrom_quoteChars (word rest : List Char) :
    splitFrom .between (quoteChars word ++ rest) = splitFrom (.plain word) rest := by
  cases word with
  | nil => exact (splitFrom_cons rfl _).trans (splitFrom_cons rfl _)
  | cons c s =>
    have hfits := Fits.first c
    unfold quoteChars
    rw [((startsWord_quoteFrom hfits s).append rest).splitFrom_between,
      splitFrom_quoteFrom hfits]
    rfl

/-- Written words with blanks between them are read back, one after the other. -/
theorem splitFrom_intercalate (words : List (List Char)) :
    splitFrom .between ([' '].intercalate (words.map quoteChars)) = some words := by
  induction words with
  | nil => rfl
  | cons word words ih =>
    cases words with
    | nil =>
      rw [List.map_singleton, List.intercalate_singleton, ← List.append_nil (quoteChars word),
        splitFrom_quoteChars]
      rfl
    | cons next words =>
      rw [List.map_cons, List.map_cons, List.intercalate_cons_cons, List.append_assoc,
        splitFrom_quoteChars, List.singleton_append, splitFrom]
      show (splitFrom .between _).map _ = _
      rw [← List.map_cons, ih]
      rfl

/-- **A line of words splits into these words**, if none of them holds a NUL. -/
theorem split_join {words : List String} (h : words.any hasNul = false) :
    split (join words) = some words := by
  have hline :
      (join words).toList = [' '].intercalate ((words.map String.toList).map quoteChars) := by
    unfold join
    rw [if_neg (by rw [h]; exact Bool.false_ne_true), String.toList_intercalate, List.map_map,
      List.map_map]
    refine congrArg _ (List.map_congr_left fun word _ => ?_)
    exact String.toList_ofList
  unfold split
  rw [hline, splitFrom_intercalate, Option.map_some, List.map_map]
  refine congrArg some ((List.map_congr_left fun word _ => ?_).trans (List.map_id words))
  exact String.ofList_toList

end SuiteDriver.Shell

namespace SuiteDriver.Command

/-- **The line that is shown is the command that is run.** By the rules of a shell it splits into
    the program and the arguments, word by word, whatever they hold but a NUL; so two commands with
    one line are the same command. -/
theorem split_line_eq_words (c : Command) (h : c.hasNul = false) :
    Shell.split c.line = some c.words ∧ c.words = c.program :: c.args ∧
      ∀ d : Command, d.hasNul = false → d.line = c.line → d = c := by
  have hsplit {d : Command} (hd : d.hasNul = false) : Shell.split d.line = some d.words :=
    Shell.split_join hd
  refine ⟨hsplit h, rfl, fun d hd hline => ?_⟩
  have hwords : d.words = c.words := by
    have hboth := hsplit hd
    rw [hline, hsplit h] at hboth
    exact (Option.some.inj hboth).symm
  obtain ⟨hprogram, hargs⟩ := List.cons.inj hwords
  cases d
  cases c
  cases hprogram
  cases hargs
  rfl

/-- Words that are empty, start a comment, hold both quotes, a backslash before the end of a line
    and a caret between blanks; and one argument with a blank in it is not two arguments. -/
theorem split_line_eq_words_of_quotes :
    let c : Command := ⟨"", ["#a", "it's \x22so\x22", "\\\n", "b ^ c!", "$é\x60"]⟩
    Shell.split c.line = some ["", "#a", "it's \x22so\x22", "\\\n", "b ^ c!", "$é\x60"] ∧
    (⟨"make", ["a b"]⟩ : Command).line ≠ (⟨"make", ["a", "b"]⟩ : Command).line := by
  intro c
  refine ⟨(split_line_eq_words c (by decide)).1, fun hline => ?_⟩
  obtain ⟨_, _, hunique⟩ := split_line_eq_words ⟨"make", ["a", "b"]⟩ (by decide)
  exact absurd (hunique ⟨"make", ["a b"]⟩ (by decide) hline) (by decide)

end SuiteDriver.Command
