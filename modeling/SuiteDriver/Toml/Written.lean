import SuiteDriver.Toml.Quoted

/-!
# Documents as they are written

The forms in which a text can be written between double quotes, character by character, and a
document of such texts can be laid out, line by line. Nothing here reads: the tables and the forms
are those of the language, and every form carries what makes it one.

* `SpellsChar`, `Spells`: the spellings of a character and of a text;
* `escape`: the spelling that leaves nothing but a quote, a backslash and the controls to escape;
* `Document`: lines that set a key to a text, among lines that set nothing.
-/

namespace SuiteDriver.Toml

/-! ## 1. Text between double quotes -/

/-- The letters that stand for a character after a backslash, with that character. -/
def letterEscapes : List (Char × Char) :=
  [('b', '\x08'), ('t', '\t'), ('n', '\n'), ('f', '\x0c'), ('r', '\r'), ('e', '\x1b'),
    (doubleQuote, doubleQuote), (backslash, backslash)]

/-- The letters that announce a character's number after a backslash, with its count of digits. -/
def numberEscapes : List (Char × Nat) := [('x', 2), ('u', 4), ('U', 8)]

/-- The hexadecimal digits with their values. -/
def hexDigits : List (Char × Nat) :=
  [('0', 0), ('1', 1), ('2', 2), ('3', 3), ('4', 4), ('5', 5), ('6', 6), ('7', 7), ('8', 8),
    ('9', 9), ('a', 10), ('b', 11), ('c', 12), ('d', 13), ('e', 14), ('f', 15), ('A', 10),
    ('B', 11), ('C', 12), ('D', 13), ('E', 14), ('F', 15)]

/-- The number that digits write after the digits of `n`. -/
def hexNumber (n : Nat) (digits : List (Char × Nat)) : Nat :=
  digits.foldl (fun n d => 16 * n + d.2) n

/-- **The spellings of a character**: itself, an escape by a letter, or an escape by its number. -/
inductive SpellsChar (c : Char) : List Char → Prop
  | plain (hprintable : isPrintable c = true) (hquote : c ≠ doubleQuote)
      (hbackslash : c ≠ backslash) : SpellsChar c [c]
  | letter {l : Char} (hl : (l, c) ∈ letterEscapes) : SpellsChar c [backslash, l]
  | number {l : Char} {digits : List (Char × Nat)} (hl : (l, digits.length) ∈ numberEscapes)
      (hdigits : ∀ d ∈ digits, d ∈ hexDigits) (hvalue : hexNumber 0 digits = c.toNat) :
      SpellsChar c (backslash :: l :: digits.map Prod.fst)

/-- **The spellings of a text**: one after the other, those of its characters. -/
inductive Spells : List Char → List Char → Prop
  | nil : Spells [] []
  | cons {c : Char} {text w written : List Char} (hc : SpellsChar c w) (h : Spells text written) :
      Spells (c :: text) (w ++ written)

/-- A hexadecimal digit with its value. -/
def hexDigit (n : Nat) : Char × Nat := (n.digitChar, n)

/-- A character, escaped if it is a quote, a backslash or a control. -/
def escapeChar (c : Char) : List Char :=
  if c = doubleQuote ∨ c = backslash then [backslash, c]
  else if isPrintable c ∧ c ≠ '\t' then [c]
  else
    backslash :: 'u' ::
      [hexDigit 0, hexDigit 0, hexDigit (c.toNat / 16), hexDigit (c.toNat % 16)].map Prod.fst

/-- A text with its quotes, backslashes and controls escaped. -/
def escape (text : List Char) : List Char := text.flatMap escapeChar

theorem hexDigit_mem {n : Nat} (h : n < 16) : hexDigit n ∈ hexDigits := by
  have hall : ∀ m < 16, hexDigit m ∈ hexDigits := by decide
  exact hall n h

/-- What may not stand for itself has a small number. -/
theorem toNat_lt_of_not_plain {c : Char} (h : ¬ (isPrintable c = true ∧ c ≠ '\t')) :
    c.toNat < 128 := by
  by_cases htab : c = '\t'
  · subst htab
    decide
  · have hcontrol : isPrintable c = false := by simpa [htab] using h
    have hnumber : ¬ (32 ≤ c.val.toNat ∧ c.val.toNat ≠ 127) := by
      simp only [isPrintable, Bool.or_eq_false_iff, Bool.and_eq_false_iff] at hcontrol
      rintro ⟨hlow, hdelete⟩
      rcases hcontrol.2 with hsmall | hsame
      · exact of_decide_eq_false hsmall hlow
      · rw [bne_eq_false_iff_eq] at hsame
        exact hdelete (congrArg UInt32.toNat hsame)
    have hsame : c.toNat = c.val.toNat := rfl
    omega

theorem spellsChar_escapeChar (c : Char) : SpellsChar c (escapeChar c) := by
  unfold escapeChar
  by_cases hmark : c = doubleQuote ∨ c = backslash
  · rw [if_pos hmark]
    rcases hmark with rfl | rfl
    · exact .letter (by decide)
    · exact .letter (by decide)
  · obtain ⟨hquote, hbackslash⟩ := not_or.mp hmark
    rw [if_neg hmark]
    by_cases hplain : isPrintable c = true ∧ c ≠ '\t'
    · rw [if_pos hplain]
      exact .plain hplain.1 hquote hbackslash
    · rw [if_neg hplain]
      have hsmall := toNat_lt_of_not_plain hplain
      refine .number (by simp [numberEscapes]) ?_ ?_
      · have hhigh := hexDigit_mem (n := c.toNat / 16) (by omega)
        have hlow := hexDigit_mem (n := c.toNat % 16) (by omega)
        have hzero := hexDigit_mem (n := 0) (by omega)
        simp [hhigh, hlow, hzero]
      · show 16 * (16 * (16 * (16 * 0 + 0) + 0) + c.toNat / 16) + c.toNat % 16 = c.toNat
        omega

/-- **Every text has a spelling.** -/
theorem spells_escape (text : List Char) : Spells text (escape text) := by
  induction text with
  | nil => exact .nil
  | cons c text ih => exact .cons (spellsChar_escapeChar c) ih

/-! ## 2. Lines -/

/-- Blanks within a line. -/
abbrev Blanks : Type := { s : List Char // s.all isBlank = true }

/-- What may stand at the end of every line: blanks, and perhaps a comment. -/
structure Remark where
  blanks : Blanks
  comment : Option { s : List Char // s.all isPrintable = true }

/-- A remark as it is written. -/
def Remark.chars (r : Remark) : List Char :=
  r.blanks.val ++ match r.comment with
    | none => []
    | some text => '#' :: text.val

/-- No blanks and no comment. -/
def Remark.nothing : Remark := ⟨⟨[], rfl⟩, none⟩

/-- A key that is set to a text. -/
structure Setting where
  indent : Blanks
  key : String
  before : Blanks
  after : Blanks
  text : String
  written : List Char
  bare : key.toList ≠ [] ∧ key.toList.all isBareKey = true
  spelled : Spells text.toList written

namespace Setting

/-- A setting as it is written, from its key on. -/
def keyOn (s : Setting) : List Char :=
  s.key.toList ++ (s.before.val ++ '=' :: (s.after.val ++ doubleQuote :: (s.written ++ [doubleQuote])))

/-- The key and the text. -/
def pair (s : Setting) : String × String := (s.key, s.text)

/-- A key set to a text in some spelling, with single blanks around the equals sign. -/
def spaced (key text : String) (written : List Char)
    (bare : key.toList ≠ [] ∧ key.toList.all isBareKey = true)
    (spelled : Spells text.toList written) : Setting where
  indent := ⟨[], rfl⟩
  key := key
  before := ⟨[' '], rfl⟩
  after := ⟨[' '], rfl⟩
  text := text
  written := written
  bare := bare
  spelled := spelled

/-- A key set to a text whose quotes, backslashes and controls are escaped. -/
def plain (key text : String)
    (bare : key.toList ≠ [] ∧ key.toList.all isBareKey = true) : Setting :=
  spaced key text (escape text.toList) bare (spells_escape text.toList)

end Setting

/-- A line. -/
inductive Line
  | filler (remark : Remark)
  | setting (setting : Setting) (remark : Remark)

/-- How a line ends. -/
inductive LineEnd
  | feed
  | returnFeed

/-- A line end as it is written. -/
def LineEnd.chars : LineEnd → List Char
  | feed => ['\n']
  | returnFeed => ['\r', '\n']

namespace Line

/-- A line as it is written. -/
def chars : Line → List Char
  | filler r => r.chars
  | setting s r => s.indent.val ++ (s.keyOn ++ r.chars)

/-- What a line sets. -/
def settings : Line → List (String × String)
  | filler _ => []
  | setting s _ => [s.pair]

end Line

/-- **A document of texts**: lines with line ends between them. -/
inductive Document
  | last (line : Line)
  | more (line : Line) (lineEnd : LineEnd) (rest : Document)

namespace Document

/-- A document as it is written. -/
def chars : Document → List Char
  | last l => l.chars
  | more l e d => l.chars ++ (e.chars ++ d.chars)

/-- What a document sets, line by line. -/
def settings : Document → List (String × String)
  | last l => l.settings
  | more l _ d => l.settings ++ d.settings

/-- Settings on one line each, and nothing else. -/
def ofSettings : List Setting → Document
  | [] => last (.filler Remark.nothing)
  | s :: ss => more (.setting s Remark.nothing) .feed (ofSettings ss)

theorem settings_ofSettings (ss : List Setting) :
    (ofSettings ss).settings = ss.map Setting.pair := by
  induction ss with
  | nil => rfl
  | cons s ss ih =>
    rw [ofSettings, settings, ih]
    rfl

end Document

end SuiteDriver.Toml
