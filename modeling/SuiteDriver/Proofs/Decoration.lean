import SuiteDriver.Console

/-!
# Colours are decoration

Without its styling sequences a text in colours is the text without colours, whatever the names,
commands and paths in it hold: sequences of their own, the first part of one, or resets, after which
the style is switched on again. What is written for the style starts with an escape, and an escape
never goes on with what stands before it; so a sequence that was cut off in the text stays what it
is. Only the end of a line, which belongs to no sequence, closes it.

* `Ansi.Removes`: removing all sequences in one pass, as a relation;
* `Ansi.Alike`: texts that leave the same, whatever sequence has begun in front of them;
* `Ansi.alike_reopen`: what is written inside a text and after it for its style;
* `Ansi.reopen_append`: a part of a text that holds no escape stays as it is in a style;
* `Console.renderAll_without_styles`: every row of lines, with and without colours.
-/

namespace SuiteDriver

namespace Ansi

/-! ## 1. Removing sequences -/

/-- **One pass from left to right** that removes each styling sequence and keeps every character that
    starts none. -/
inductive Removes : List Char → List Char → Prop
  | nil : Removes [] []
  | sequence {numbers s t : List Char} (h : numbers.all isNumbering = true) (hs : Removes s t) :
      Removes (opening numbers ++ s) t
  | keep {c : Char} {s t : List Char}
      (h : ∀ numbers rest : List Char, numbers.all isNumbering = true →
        c :: s ≠ opening numbers ++ rest) (hs : Removes s t) : Removes (c :: s) (c :: t)

theorem isNumbering_ne {c : Char} (h : isNumbering c = true) : c ≠ escape ∧ c ≠ 'm' := by
  constructor
  · rintro rfl
    cases h
  · rintro rfl
    cases h

/-- An escape goes on with nothing that stands before it. -/
theorem stripFrom_escape (begun : Begun) (s : List Char) :
    stripFrom begun (escape :: s) = begun.chars ++ stripFrom .escape s := by
  cases begun <;> rfl

/-- Numbers in a sequence that has begun are taken into it. -/
theorem stripFrom_numbers {numbers : List Char} (h : numbers.all isNumbering = true)
    (begun s : List Char) :
    stripFrom (.numbers begun) (numbers ++ s) = stripFrom (.numbers (begun ++ numbers)) s := by
  induction numbers generalizing begun with
  | nil => simp
  | cons c numbers ih =>
    obtain ⟨hc, hrest⟩ := Bool.and_eq_true_iff.mp (List.all_cons ▸ h)
    rw [List.cons_append, stripFrom, if_neg (isNumbering_ne hc).1]
    simp only [hc, ↓reduceIte]
    rw [ih hrest, List.append_assoc, List.singleton_append]

/-- **A whole sequence leaves nothing**, and what had begun in front of it stays. -/
theorem stripFrom_opening {numbers : List Char} (h : numbers.all isNumbering = true)
    (begun : Begun) (s : List Char) :
    stripFrom begun (opening numbers ++ s) = begun.chars ++ strip s := by
  have hbracket : stripFrom .escape ('[' :: (numbers ++ 'm' :: s)) = strip s := by
    have hend : stripFrom (.numbers numbers) ('m' :: s) = strip s := rfl
    have hopen : stripFrom .escape ('[' :: (numbers ++ 'm' :: s)) =
        stripFrom (.numbers []) (numbers ++ 'm' :: s) := rfl
    rw [hopen, stripFrom_numbers h, List.nil_append, hend]
  have hshape : opening numbers ++ s = escape :: '[' :: (numbers ++ 'm' :: s) := by
    simp [opening]
  rw [hshape, stripFrom_escape, hbracket]

/-- What begins like a sequence and is none stays as it is. -/
theorem stripFrom_of_unfinished {s : List Char}
    (h : ∀ numbers rest : List Char, numbers.all isNumbering = true → s ≠ numbers ++ 'm' :: rest)
    (begun : List Char) :
    stripFrom (.numbers begun) s = escape :: '[' :: (begun ++ strip s) := by
  induction s generalizing begun with
  | nil => simp [stripFrom, strip, Begun.chars]
  | cons c s ih =>
    by_cases hescape : c = escape
    · simp [stripFrom, strip, Begun.chars, hescape]
    · have hkeep : strip (c :: s) = c :: strip s := by simp [strip, stripFrom, hescape]
      cases hc : isNumbering c with
      | true =>
        have hrest : ∀ numbers rest : List Char, numbers.all isNumbering = true →
            s ≠ numbers ++ 'm' :: rest := by
          rintro numbers rest hall rfl
          exact h (c :: numbers) rest (by simp [hc, hall]) rfl
        rw [stripFrom, if_neg hescape]
        simp only [hc, ↓reduceIte]
        rw [ih hrest, hkeep, List.append_assoc, List.singleton_append]
      | false =>
        have hend : c ≠ 'm' := by
          rintro rfl
          exact h [] s rfl rfl
        rw [hkeep]
        simp [stripFrom, strip, hescape, hc, hend]

/-- **A character that starts no sequence is kept.** -/
theorem strip_cons_of_no_sequence {c : Char} {s : List Char}
    (h : ∀ numbers rest : List Char, numbers.all isNumbering = true →
      c :: s ≠ opening numbers ++ rest) : strip (c :: s) = c :: strip s := by
  by_cases hescape : c = escape
  · subst hescape
    have hopen : strip (escape :: s) = stripFrom .escape s := rfl
    rw [hopen]
    rcases s with _ | ⟨d, s⟩
    · rfl
    · by_cases hd : d = escape
      · subst hd
        rfl
      · by_cases hbracket : d = '['
        · subst hbracket
          have hunfinished : ∀ numbers rest : List Char, numbers.all isNumbering = true →
              s ≠ numbers ++ 'm' :: rest := by
            rintro numbers rest hall rfl
            exact h numbers rest hall (by simp [opening])
          exact stripFrom_of_unfinished hunfinished []
        · simp [stripFrom, strip, hd, hbracket]
  · simp [strip, stripFrom, hescape]

/-- **One pass leaves one text**, the one that stripping gives. -/
theorem removes_iff {s t : List Char} : Removes s t ↔ t = strip s := by
  constructor
  · intro h
    induction h with
    | nil => rfl
    | sequence hnumbers _ ih => exact ih.trans (stripFrom_opening hnumbers .nothing _).symm
    | keep hnone _ ih => rw [strip_cons_of_no_sequence hnone, ih]
  · rintro rfl
    -- a sequence has a character, so what follows it is shorter
    induction hlength : s.length using Nat.strongRecOn generalizing s with
    | ind n ih =>
      subst hlength
      by_cases hsequence : ∃ numbers rest : List Char, numbers.all isNumbering = true ∧
          s = opening numbers ++ rest
      · obtain ⟨numbers, rest, hnumbers, rfl⟩ := hsequence
        have hstrip : strip (opening numbers ++ rest) = strip rest :=
          stripFrom_opening hnumbers .nothing rest
        rw [hstrip]
        exact .sequence hnumbers (ih _ (by simp [opening]; omega) rfl)
      · cases s with
        | nil => exact .nil
        | cons c s =>
          have hnone : ∀ numbers rest : List Char, numbers.all isNumbering = true →
              c :: s ≠ opening numbers ++ rest := fun numbers rest hnumbers heq =>
            hsequence ⟨numbers, rest, hnumbers, heq⟩
          rw [strip_cons_of_no_sequence hnone]
          exact .keep hnone (ih _ (by simp) rfl)

/-! ## 2. Texts that leave the same -/

/-- **Two texts leave the same**, whatever sequence has begun in front of them. -/
def Alike (s t : List Char) : Prop := ∀ begun, stripFrom begun s = stripFrom begun t

theorem Alike.cons {s t : List Char} (h : Alike s t) (c : Char) : Alike (c :: s) (c :: t) := by
  intro begun
  cases begun with
  | nothing => simp only [stripFrom, h _]
  | escape => simp only [stripFrom, h _]
  | numbers written => simp only [stripFrom, h _]

theorem Alike.append {s t : List Char} (h : Alike s t) (front : List Char) :
    Alike (front ++ s) (front ++ t) := by
  induction front with
  | nil => exact h
  | cons c front ih => exact ih.cons c

/-- A line end closes whatever has begun. -/
theorem stripFrom_lineEnd (begun : Begun) (s : List Char) :
    stripFrom begun ('\n' :: s) = begun.chars ++ '\n' :: strip s := by
  cases begun with
  | nothing => rfl
  | escape => rfl
  | numbers written => simp [stripFrom, Begun.chars, strip, isNumbering, escape]

theorem alike_lineEnd {s t : List Char} (h : strip s = strip t) : Alike ('\n' :: s) ('\n' :: t) := by
  intro begun
  rw [stripFrom_lineEnd, stripFrom_lineEnd, h]

variable {numbers : List Char}

/-- A whole sequence in front of a line end leaves nothing. -/
theorem alike_reset (s : List Char) : Alike (reset ++ '\n' :: s) ('\n' :: s) := by
  intro begun
  have hreset : stripFrom begun (reset ++ '\n' :: s) = begun.chars ++ strip ('\n' :: s) :=
    stripFrom_opening (by decide) begun _
  rw [hreset, stripFrom_lineEnd]
  rfl

/-- **What a style adds inside a text and after it leaves nothing**, up to the end of the line. -/
theorem alike_reopen (h : numbers.all isNumbering = true) (text s : List Char) :
    Alike (reopen (opening numbers) text ++ (reset ++ '\n' :: s)) (text ++ '\n' :: s) := by
  fun_induction reopen (opening numbers) text with
  | case1 r ih =>
    -- the reset of the text leaves nothing, and neither does what is written after it
    intro begun
    have hreset (t : List Char) : stripFrom begun (reset ++ t) = begun.chars ++ strip t :=
      stripFrom_opening (by decide) begun t
    have hagain : strip (opening numbers ++ (reopen (opening numbers) r ++ (reset ++ '\n' :: s))) =
        strip (reopen (opening numbers) r ++ (reset ++ '\n' :: s)) :=
      stripFrom_opening h .nothing _
    have hrest : strip (reopen (opening numbers) r ++ (reset ++ '\n' :: s)) =
        strip (r ++ '\n' :: s) := ih .nothing
    have hleft := hreset (opening numbers ++ (reopen (opening numbers) r ++ (reset ++ '\n' :: s)))
    rw [hagain, hrest, ← hreset] at hleft
    simpa [reset, opening, escape] using hleft
  | case2 c r _ ih => exact ih.cons c
  | case3 => exact alike_reset s

/-! ## 3. Parts of a text in a style -/

/-- A character that starts no reset stays. -/
theorem reopen_cons {c : Char} (h : c ≠ escape) (again s : List Char) :
    reopen again (c :: s) = c :: reopen again s := by
  rw [reopen]
  rintro t rfl
  exact absurd rfl h

/-- Where nothing is reset, nothing is written. -/
theorem reopen_append {text : List Char} (h : escape ∉ text) (again s : List Char) :
    reopen again (text ++ s) = text ++ reopen again s := by
  induction text with
  | nil => rfl
  | cons c text ih =>
    obtain ⟨hc, htext⟩ := not_or.mp (mt List.mem_cons.mpr h)
    rw [List.cons_append, reopen_cons (Ne.symm hc), ih htext, List.cons_append]

/-- A character that no reset holds keeps apart what stands before it and after it. -/
theorem reopen_append_blank (again text s : List Char) :
    reopen again (text ++ ' ' :: s) = reopen again text ++ ' ' :: reopen again s := by
  fun_induction reopen again text with
  | case1 r ih => simp [reopen, ih]
  | case2 c r hne ih =>
    rw [List.cons_append, List.cons_append, reopen, ih]
    -- a reset that starts here would end before the blank
    rintro t rfl ht
    rcases r with _ | ⟨bracket, _ | ⟨zero, _ | ⟨m, r⟩⟩⟩
    · simp at ht
    · simp at ht
    · simp at ht
    · obtain ⟨rfl, rfl, rfl, -⟩ : bracket = '[' ∧ zero = '0' ∧ m = 'm' ∧ r ++ ' ' :: s = t := by
        simpa using ht
      exact hne r rfl rfl
  | case3 => rfl

end Ansi

/-! ## 4. Lines -/

theorem Colour.all_isNumbering_code (c : Colour) : c.code.all Ansi.isNumbering = true := by
  cases c <;> decide

theorem Style.all_isNumbering_codes {style : Style} {codes : List Char}
    (h : style.codes? = some codes) : codes.all Ansi.isNumbering = true := by
  cases style with
  | plain => cases h
  | coloured c =>
    cases h
    exact c.all_isNumbering_code
  | boldColoured c =>
    cases h
    exact c.all_isNumbering_code
  | bold | dimmed =>
    cases h
    decide

namespace Ansi

/-- **A text in a style leaves what the text leaves**, at the start of a line. -/
theorem strip_paint (style : Style) (text s : List Char) :
    strip (paint style text ++ '\n' :: s) = strip (text ++ '\n' :: s) := by
  unfold paint
  cases hcodes : style.codes? with
  | none => rfl
  | some codes =>
    have hnumbers := Style.all_isNumbering_codes hcodes
    have hopening : strip (opening codes ++ (reopen (opening codes) text ++ (reset ++ '\n' :: s))) =
        strip (reopen (opening codes) text ++ (reset ++ '\n' :: s)) :=
      stripFrom_opening hnumbers .nothing _
    have htext : strip (reopen (opening codes) text ++ (reset ++ '\n' :: s)) =
        strip (text ++ '\n' :: s) := alike_reopen hnumbers text s .nothing
    simp only [List.append_assoc]
    rw [hopening, htext]

end Ansi

namespace Console

/-- Lines as they are written, character by character. -/
theorem toList_renderAll_cons (language : Language) (colours : Bool) (l : Line)
    (lines : List Line) :
    (renderAll language colours (l :: lines)).toList =
      l.renderChars language colours ++ (renderAll language colours lines).toList := by
  simp [renderAll, String.join_cons, Line.render]

/-- **A line in colours leaves what it leaves without them**, in front of lines that do. -/
theorem strip_renderChars (language : Language) (l : Line) {s t : List Char}
    (h : Ansi.strip s = Ansi.strip t) :
    Ansi.strip (l.renderChars language true ++ s) =
      Ansi.strip (l.renderChars language false ++ t) := by
  have htext : Ansi.strip (Ansi.paint l.style (l.body language).toList ++ '\n' :: s) =
      Ansi.strip ((l.body language).toList ++ '\n' :: t) :=
    (Ansi.strip_paint _ _ s).trans ((Ansi.alike_lineEnd h).append _ .nothing)
  cases hset : l.isSetOff with
  | false => simpa [Line.renderChars, hset] using htext
  | true =>
    have hblank (u : List Char) : Ansi.strip ('\n' :: u) = '\n' :: Ansi.strip u :=
      Ansi.stripFrom_lineEnd .nothing u
    simpa [Line.renderChars, hset, hblank] using htext

/-- Rows of lines leave the same with colours and without them. -/
theorem strip_renderAll (language : Language) (lines : List Line) :
    Ansi.strip (renderAll language true lines).toList =
      Ansi.strip (renderAll language false lines).toList := by
  induction lines with
  | nil => rfl
  | cons l lines ih =>
    rw [toList_renderAll_cons, toList_renderAll_cons]
    exact strip_renderChars language l ih

/-- **Colours are only decoration.** In every language and for all lines that are shown together,
    with whatever names, commands and paths are in them, one pass that removes the styling sequences
    leaves one text of what is shown in colours, and the same text of what is shown without. -/
theorem renderAll_without_styles (language : Language) (lines : List Line) :
    ∃ text : List Char,
      (∀ t, Ansi.Removes (renderAll language true lines).toList t ↔ t = text) ∧
        ∀ t, Ansi.Removes (renderAll language false lines).toList t ↔ t = text := by
  refine ⟨Ansi.strip (renderAll language false lines).toList, fun t => ?_, fun t => ?_⟩
  · rw [Ansi.removes_iff, strip_renderAll]
  · exact Ansi.removes_iff

/-- A path with a reset and with a sequence that is cut off: the style is switched on again after the
    reset, and what was cut off is not joined to what switches the style off. -/
example : renderAll .english true [.configWritten "a\x1b[0mb\x1b[3"] =
    "\x1b[32mWrote default configuration to: a\x1b[0m\x1b[32mb\x1b[3\x1b[0m\n" := by
  decide +kernel

end Console

end SuiteDriver
