import SuiteDriver.Toml.Item
import SuiteDriver.Toml.Written

/-!
# Text between double quotes is read back

Quoted text is first cut and only then understood, so a spelling has to survive twice: no part of it
may look like the closing mark or like the end of the line, and each part has to stand for its
character again. Both hold for every spelling, one character after the other.

* `untilMark_spells`: a spelling is cut as a whole, up to the mark after it;
* `escapedLine_spells`: it stands for its text;
* `textValue_spells`: quoted, it is read back as a value.
-/

namespace SuiteDriver.Toml

/-! ## 1. The tables of escapes -/

theorem letterEscape?_of_mem {l c : Char} (h : (l, c) ∈ letterEscapes) :
    letterEscape? l = some c := by
  have hall : ∀ e ∈ letterEscapes, letterEscape? e.1 = some e.2 := by decide
  exact hall _ h

theorem numericEscape?_of_mem {l : Char} {n : Nat} (h : (l, n) ∈ numberEscapes) :
    letterEscape? l = none ∧ numericEscape? l = some n ∧ 0 < n := by
  have hall : ∀ e ∈ numberEscapes,
      letterEscape? e.1 = none ∧ numericEscape? e.1 = some e.2 ∧ 0 < e.2 := by decide
  exact hall _ h

theorem hexDigit?_of_mem {d : Char × Nat} (h : d ∈ hexDigits) : hexDigit? d.1 = some d.2 := by
  have hall : ∀ e ∈ hexDigits, hexDigit? e.1 = some e.2 := by decide
  exact hall _ h

theorem charOfNumber?_toNat (c : Char) : charOfNumber? c.toNat = some c := by
  have hvalid : c.toNat.isValidChar := c.valid
  unfold charOfNumber?
  rw [if_pos hvalid, Char.ofNat_toNat]

/-! ## 2. Cutting -/

/-- **Characters that end nothing**: no line end, no mark and no backslash. -/
def IsInert (c : Char) : Prop := c ≠ '\n' ∧ c ≠ doubleQuote ∧ c ≠ backslash

instance (c : Char) : Decidable (IsInert c) := inferInstanceAs (Decidable (_ ∧ _ ∧ _))

theorem isInert_of_mem_letterEscapes {l c : Char} (h : (l, c) ∈ letterEscapes) :
    l = doubleQuote ∨ l = backslash ∨ IsInert l := by
  have hall : ∀ e ∈ letterEscapes, e.1 = doubleQuote ∨ e.1 = backslash ∨ IsInert e.1 := by decide
  exact hall _ h

theorem isInert_of_mem_numberEscapes {l : Char} {n : Nat} (h : (l, n) ∈ numberEscapes) :
    IsInert l := by
  have hall : ∀ e ∈ numberEscapes, IsInert e.1 := by decide
  exact hall _ h

theorem isInert_of_mem_hexDigits {d : Char × Nat} (h : d ∈ hexDigits) : IsInert d.1 := by
  have hall : ∀ e ∈ hexDigits, IsInert e.1 := by decide
  exact hall _ h

theorem isInert_of_isPrintable {c : Char} (hprintable : isPrintable c = true)
    (hquote : c ≠ doubleQuote) (hbackslash : c ≠ backslash) : IsInert c := by
  refine ⟨?_, hquote, hbackslash⟩
  rintro rfl
  cases hprintable

theorem prepend_prepend (xs ys : List Char) (p : Option (List Char) × List Char) :
    prepend xs (prepend ys p) = prepend (xs ++ ys) p := by
  simp [prepend, Option.map_map, Function.comp_def]

theorem untilMark_inert {c : Char} (h : IsInert c) (escaped : Bool) (s : List Char) :
    untilMark doubleQuote true escaped (c :: s) =
      prepend [c] (untilMark doubleQuote true false s) := by
  obtain ⟨hfeed, hquote, hbackslash⟩ := h
  rw [untilMark, if_neg hfeed, if_neg (by simp [hquote, hbackslash]), if_neg hquote]
  simp [hbackslash]

theorem untilMark_inerts {w : List Char} (h : ∀ c ∈ w, IsInert c) (s : List Char) :
    untilMark doubleQuote true false (w ++ s) =
      prepend w (untilMark doubleQuote true false s) := by
  induction w with
  | nil => simp [prepend]
  | cons c w ih =>
    obtain ⟨hc, hw⟩ := List.forall_mem_cons.mp h
    rw [List.cons_append, untilMark_inert hc, ih hw, prepend_prepend]
    rfl

/-- After a backslash a mark or another backslash is like any other character. -/
theorem untilMark_backslash {l : Char} (h : l = doubleQuote ∨ l = backslash ∨ IsInert l)
    (s : List Char) :
    untilMark doubleQuote true false (backslash :: l :: s) =
      prepend [backslash, l] (untilMark doubleQuote true false s) := by
  have hfirst : untilMark doubleQuote true false (backslash :: l :: s) =
      prepend [backslash] (untilMark doubleQuote true true (l :: s)) := rfl
  have hsecond : untilMark doubleQuote true true (l :: s) =
      prepend [l] (untilMark doubleQuote true false s) := by
    rcases h with rfl | rfl | hl
    · rfl
    · rfl
    · exact untilMark_inert hl true s
  rw [hfirst, hsecond, prepend_prepend]
  rfl

theorem untilMark_spellsChar {c : Char} {w : List Char} (h : SpellsChar c w) (s : List Char) :
    untilMark doubleQuote true false (w ++ s) =
      prepend w (untilMark doubleQuote true false s) := by
  cases h with
  | plain hprintable hquote hbackslash =>
    exact untilMark_inert (isInert_of_isPrintable hprintable hquote hbackslash) false s
  | letter hl => exact untilMark_backslash (isInert_of_mem_letterEscapes hl) s
  | @number l digits hl hdigits hvalue =>
    have hinert : ∀ d ∈ digits.map Prod.fst, IsInert d := by
      intro d hd
      obtain ⟨e, he, rfl⟩ := List.mem_map.mp hd
      exact isInert_of_mem_hexDigits (hdigits e he)
    rw [List.cons_append, List.cons_append,
      untilMark_backslash (Or.inr (Or.inr (isInert_of_mem_numberEscapes hl))),
      untilMark_inerts hinert, prepend_prepend]
    rfl

/-- **A spelling is cut as a whole**, and the mark after it closes it. -/
theorem untilMark_spells {text written : List Char} (h : Spells text written) (rest : List Char) :
    untilMark doubleQuote true false (written ++ doubleQuote :: rest) = (some written, rest) := by
  induction h with
  | nil => rfl
  | cons hc h ih =>
    rw [List.append_assoc, untilMark_spellsChar hc, ih]
    rfl

/-! ## 3. What a spelling stands for -/

theorem escapedLine_digits {digits : List (Char × Nat)} (hne : digits ≠ [])
    (hdigits : ∀ d ∈ digits, d ∈ hexDigits) {n : Nat} {c : Char}
    (hvalue : hexNumber n digits = c.toNat) (s : List Char) :
    escapedLine (.number digits.length n) (digits.map Prod.fst ++ s) =
      (escapedLine .outside s).map (c :: ·) := by
  induction digits generalizing n with
  | nil => exact absurd rfl hne
  | cons d digits ih =>
    obtain ⟨hd, hrest⟩ := List.forall_mem_cons.mp hdigits
    rw [List.map_cons, List.cons_append, escapedLine, hexDigit?_of_mem hd]
    cases digits with
    | nil =>
      have hlast : 16 * n + d.2 = c.toNat := hvalue
      simp [hlast, charOfNumber?_toNat]
    | cons e digits =>
      have hmore : ¬ (d :: e :: digits).length ≤ 1 := by simp
      have hread := ih (List.cons_ne_nil _ _) hrest (n := 16 * n + d.2) hvalue
      dsimp only
      rw [if_neg hmore]
      exact hread

theorem escapedLine_spellsChar {c : Char} {w : List Char} (h : SpellsChar c w) (s : List Char) :
    escapedLine .outside (w ++ s) = (escapedLine .outside s).map (c :: ·) := by
  cases h with
  | plain hprintable hquote hbackslash =>
    rw [List.singleton_append, escapedLine, if_neg hbackslash, if_pos hprintable]
  | letter hl =>
    rw [List.cons_append, List.singleton_append, escapedLine, if_pos rfl, escapedLine,
      letterEscape?_of_mem hl]
  | @number l digits hl hdigits hvalue =>
    obtain ⟨hletter, hnumeric, hsome⟩ := numericEscape?_of_mem hl
    have hne : digits ≠ [] := List.ne_nil_of_length_pos hsome
    rw [List.cons_append, List.cons_append, escapedLine, if_pos rfl, escapedLine, hletter, hnumeric]
    exact escapedLine_digits hne hdigits hvalue s

/-- **A spelling stands for its text.** -/
theorem escapedLine_spells {text written : List Char} (h : Spells text written) :
    escapedLine .outside written = some text := by
  induction h with
  | nil => rfl
  | cons hc h ih => rw [escapedLine_spellsChar hc, ih, Option.map_some]

/-! ## 4. Quoted text -/

theorem Spells.head?_ne {text written : List Char} (h : Spells text written) :
    written.head? ≠ some doubleQuote := by
  cases h with
  | nil => nofun
  | cons hc h =>
    cases hc with
    | plain _ hquote _ => simpa using hquote
    | letter _ => simp [backslash, doubleQuote]
    | number _ _ _ => simp [backslash, doubleQuote]

/-- A mark that is not the first of three starts a text on one line. -/
theorem quoted_of_single {a : Char} (ha : isMark a = true) {s : List Char}
    (h : ∀ t, s ≠ a :: a :: t) :
    quoted (a :: s) =
      some (⟨false, a = doubleQuote, (untilMark a (a = doubleQuote) false s).1⟩,
        (untilMark a (a = doubleQuote) false s).2) := by
  rcases s with _ | ⟨b, _ | ⟨c, r⟩⟩
  · simp [quoted, ha]
  · simp [quoted, ha]
  · have hsingle : ¬ (a = b ∧ b = c) := by
      rintro ⟨rfl, rfl⟩
      exact h r rfl
    unfold quoted
    dsimp only
    rw [ha, if_neg (by decide), if_neg hsingle]

theorem quoted_spells {text written rest : List Char} (h : Spells text written)
    (hrest : rest.head? ≠ some doubleQuote) :
    quoted (doubleQuote :: (written ++ doubleQuote :: rest)) =
      some (⟨false, true, some written⟩, rest) := by
  have hsingle (t : List Char) :
      written ++ doubleQuote :: rest ≠ doubleQuote :: doubleQuote :: t := by
    intro hsame
    cases written with
    | nil =>
      rw [List.nil_append, List.cons.injEq] at hsame
      exact hrest (by simp [hsame.2])
    | cons c w =>
      rw [List.cons_append, List.cons.injEq] at hsame
      exact h.head?_ne (by simp [hsame.1])
  rw [quoted_of_single rfl hsingle, decide_eq_true rfl, untilMark_spells h]

/-- **A quoted spelling is read back as its text**, where no further mark follows. -/
theorem textValue_spells {text written rest : List Char} (h : Spells text written)
    (hrest : rest.head? ≠ some doubleQuote) :
    textValue (doubleQuote :: (written ++ doubleQuote :: rest)) =
      some (.ok (.text (String.ofList text)), rest) := by
  have htext : Quoted.text? ⟨false, true, some written⟩ = some text := escapedLine_spells h
  unfold textValue
  rw [quoted_spells h hrest, Option.map_some, htext]
  rfl

end SuiteDriver.Toml
