import SuiteDriver.Shell.Quote

/-!
# Cutting a shell command line into words

Blanks stand between words, and a `#` at the start of a word begins a comment that lasts to the end
of its line. Everything in single quotes means itself. In double quotes a backslash takes away the
meaning of a few characters and stands for itself before all others; outside quotes it does so for
every character. A backslash before the end of a line joins the lines. A line that ends inside
quotes or after a backslash has no words.

`Shell.split` reads what `Shell.join` writes.
-/

namespace SuiteDriver.Shell

/-- Characters that stand between words. -/
def isBlank (c : Char) : Bool := c == ' ' || c == '\t' || c == '\n'

/-- Characters whose meaning a backslash takes away in double quotes. -/
def isEscapable (c : Char) : Bool := c == '$' || c == '\x60' || c == '\x22' || c == '\x5c'

/-- Where in a line its reader stands; inside a word with the word so far. -/
inductive Mode
  | between
  | comment
  | plain (word : List Char)
  | escaped (word : List Char)
  | single (word : List Char)
  | double (word : List Char)
  | doubleEscaped (word : List Char)
deriving DecidableEq, Repr

namespace Mode

/-- One character further in a word outside quotes. -/
def inWord (word : List Char) (c : Char) : Mode :=
  if c = '\x27' then single word
  else if c = '\x22' then double word
  else if c = '\x5c' then escaped word
  else plain (word ++ [c])

/-- One character further; a blank leads out of a word. -/
def next : Mode → Char → Mode
  | between, c => if isBlank c then between else if c = '#' then comment else inWord [] c
  | comment, c => if c = '\n' then between else comment
  | plain word, c => if isBlank c then between else inWord word c
  | escaped word, c => if c = '\n' then plain word else plain (word ++ [c])
  | single word, c => if c = '\x27' then plain word else single (word ++ [c])
  | double word, c =>
    if c = '\x22' then plain word
    else if c = '\x5c' then doubleEscaped word
    else double (word ++ [c])
  | doubleEscaped word, c =>
    if c = '\n' then double word
    else if isEscapable c then double (word ++ [c])
    else double (word ++ ['\x5c', c])

/-- The words that a character ends: the one before a blank. -/
def ended : Mode → Char → List (List Char)
  | plain word, c => if isBlank c then [word] else []
  | _, _ => []

/-- The words that the end of the line ends, unless it must not end there. -/
def atEnd : Mode → Option (List (List Char))
  | between | comment => some []
  | plain word => some [word]
  | escaped _ | single _ | double _ | doubleEscaped _ => none

end Mode

/-- The words of a line, from somewhere in it on. -/
def splitFrom (m : Mode) : List Char → Option (List (List Char))
  | [] => m.atEnd
  | c :: r => (splitFrom (m.next c) r).map (m.ended c ++ ·)

/-- The words of a line, if it has an end. -/
def split (line : String) : Option (List String) :=
  (splitFrom .between line.toList).map fun words => words.map String.ofList

end SuiteDriver.Shell
