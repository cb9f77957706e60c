/-!
# Colours on a terminal

A style is a colour, a weight, or both. A styled text stands between an opening sequence and a
reset; after every reset that the text itself holds, the opening sequence is written again, so that
the style lasts to the end.

`Console` gives each line its style.
-/

namespace SuiteDriver

/-- A colour of the terminal. -/
inductive Colour
  | red
  | green
  | yellow
  | blue
  | cyan
deriving DecidableEq, Repr

/-- How a text looks. -/
inductive Style
  | plain
  | coloured (c : Colour)
  | bold
  | boldColoured (c : Colour)
  | dimmed
deriving DecidableEq, Repr

/-- The number of a colour, as digits. -/
def Colour.code : Colour → List Char
  | .red => ['3', '1']
  | .green => ['3', '2']
  | .yellow => ['3', '3']
  | .blue => ['3', '4']
  | .cyan => ['3', '6']

namespace Style

/-- The numbers of a style, with semicolons between them; nothing for a text as it is. -/
def codes? : Style → Option (List Char)
  | .plain => none
  | .coloured c => some c.code
  | .bold => some ['1']
  | .boldColoured c => some ('1' :: ';' :: c.code)
  | .dimmed => some ['2']

end Style

namespace Ansi

/-- The character that starts a sequence. -/
def escape : Char := '\x1b'

/-- The sequence that switches numbers on. -/
def opening (codes : List Char) : List Char := escape :: '[' :: codes ++ ['m']

/-- The sequence that switches everything off. -/
def reset : List Char := opening ['0']

/-- A text with `again` written after every reset in it. -/
def reopen (again : List Char) : List Char → List Char
  | '\x1b' :: '[' :: '0' :: 'm' :: r => '\x1b' :: '[' :: '0' :: 'm' :: again ++ reopen again r
  | c :: r => c :: reopen again r
  | [] => []

/-- A text in a style. -/
def paint (style : Style) (text : List Char) : List Char :=
  match style.codes? with
  | none => text
  | some codes => opening codes ++ reopen (opening codes) text ++ reset

/-! ## Removing styles -/

/-- The start of a styling sequence. -/
inductive Begun
  | nothing
  | escape
  /-- The escape, the bracket and some numbers. -/
  | numbers (written : List Char)
deriving DecidableEq, Repr

/-- The characters of the start of a sequence. -/
def Begun.chars : Begun → List Char
  | .nothing => []
  | .escape => [Ansi.escape]
  | .numbers written => Ansi.escape :: '[' :: written

/-- Whether a character may stand among the numbers of a styling sequence. -/
def isNumbering (c : Char) : Bool := c.isDigit || c == ';'

/-- A text without its styling sequences, after the start of one. What starts like a sequence and is
none stays. -/
def stripFrom (begun : Begun) : List Char → List Char
  | [] => begun.chars
  | c :: r =>
    if c = escape then begun.chars ++ stripFrom .escape r
    else
      match begun with
      | .nothing => c :: stripFrom .nothing r
      | .escape => if c = '[' then stripFrom (.numbers []) r else escape :: c :: stripFrom .nothing r
      | .numbers written =>
        if isNumbering c then stripFrom (.numbers (written ++ [c])) r
        else if c = 'm' then stripFrom .nothing r
        else escape :: '[' :: written ++ c :: stripFrom .nothing r

/-- A text without its styling sequences. -/
def strip (s : List Char) : List Char := stripFrom .nothing s

end Ansi

end SuiteDriver
