/-!
# Reading from a text, and where one is in it

A reader takes the characters still to be read and gives a value with the characters left after it,
or nothing when the text is not of its form. A text can be of the right form and still hold a word
that means nothing, or a key that is too long; then the reader goes on, and what it gives is the
`Flaw`. So a fault of form is found before every flaw, wherever the two stand.

A place in a text is known by how many characters are left there: a stretch (`Span`) is a pair of
such numbers. Text put in front of what is read therefore moves no span.

The definitions are read by every module of this folder.
-/

namespace SuiteDriver.Toml

/-- A stretch of a text, by the number of characters left at its start and at its end. -/
structure Span where
  /-- Characters left where the stretch starts. -/
  start : Nat
  /-- Characters left just after the stretch. -/
  stop : Nat
deriving DecidableEq, Repr, Inhabited

/-- What can be wrong with a text whose parts are all in their places. -/
inductive Flaw
  /-- A part means nothing, or contradicts an earlier one. -/
  | malformed
  /-- A key has too many segments. -/
  | tooDeep
deriving DecidableEq, Repr, Inhabited

/-- From the characters still to be read to a value and the characters left, or refusal. -/
abbrev Reader (α : Type) := List Char → Option (α × List Char)

namespace Reader

/-- What `r` reads, with the stretch of text that it took. -/
def spanned {α : Type} (r : Reader α) : Reader (Span × α) := fun s =>
  match r s with
  | some (a, rest) => some ((⟨s.length, rest.length⟩, a), rest)
  | none => none

end Reader

/-! ## 1. Classes of characters -/

/-- Blanks inside a line. -/
def isBlank (c : Char) : Bool := c == ' ' || c == '\t'

/-- Characters that may stand in a comment or in a string: a tab, and all but the controls. -/
def isPrintable (c : Char) : Bool := c == '\t' || (0x20 ≤ c.val && c.val != 0x7F)

/-- Characters of a key written without quotes. -/
def isBareKey (c : Char) : Bool :=
  c.isAlphanum || c == '_' || c == '-'

/-- Characters of a word: all but blanks, line ends and the marks that stand between parts. -/
def isWordChar (c : Char) : Bool :=
  !(isBlank c || ['\n', '\r', '.', '=', ',', '[', ']', '\x7b', '\x7d', '#'].contains c)

/-- Characters of a value written without quotes: words, and the points between them. -/
def isBareValue (c : Char) : Bool := isWordChar c || c == '.'

/-! ## 2. Blanks, line ends and comments -/

/-- Skips blanks inside the line. -/
def skipBlanks (s : List Char) : List Char := s.dropWhile isBlank

/-- A line end: a line feed, or a carriage return followed by one. -/
def lineEnd? : List Char → Option (List Char)
  | '\n' :: r => some r
  | '\r' :: '\n' :: r => some r
  | _ => none

/-- Skips a comment if one starts here; its line end is left in place. -/
def skipComment : List Char → List Char
  | '#' :: r => r.dropWhile isPrintable
  | s => s

/-- The rest of a line after its last item: blanks, a comment, and a line end or the end of the
text. -/
def finishLine? (s : List Char) : Option (List Char) :=
  match skipComment (skipBlanks s) with
  | [] => some []
  | t => lineEnd? t

/-- Skips blanks, comments and line ends, in at most `n` lines. -/
def skipLines : Nat → List Char → List Char
  | 0, s => skipBlanks s
  | n + 1, s =>
    let t := skipComment (skipBlanks s)
    match lineEnd? t with
    | some r => skipLines n r
    | none => t

/-- Skips blanks, comments and line ends between the parts of a bracketed value. -/
def skipFiller (s : List Char) : List Char := skipLines s.length s

end SuiteDriver.Toml
