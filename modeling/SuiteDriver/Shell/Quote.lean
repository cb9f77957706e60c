/-!
# Words of a shell command line

A word that needs no quotes is written bare. Any other word is cut from the left into chunks, each
as long as one way of writing still fits all its characters, and the chunks are written without
anything between them. The walk over a word carries the chunk so far and the ways that still fit it.

A caret is written in single quotes and only at the start of a chunk, because no quotes keep it from
being read as the history of an interactive shell.

`Shell.join` is the command line that is shown for a command.
-/

namespace SuiteDriver.Shell

/-! ## 1. Ways of writing a chunk -/

/-- Characters that mean themselves without quotes. -/
def isBare (c : Char) : Bool :=
  c.isAlphanum || c == '+' || c == '-' || c == '.' || c == '/' || c == ':' || c == '@' ||
    c == ']' || c == '_'

/-- Characters that mean themselves in single quotes. -/
def isSingle (c : Char) : Bool := c != '\x27' && c != '^' && c != '\x5c'

/-- Characters that can be written in double quotes. -/
def isDouble (c : Char) : Bool := c != '\x60' && c != '$' && c != '!' && c != '^'

/-- The ways of writing that fit a chunk. -/
structure Styles where
  bare : Bool
  single : Bool
  double : Bool
deriving DecidableEq, Repr

namespace Styles

/-- The ways that also fit one more character. -/
def narrow (ok : Styles) (c : Char) : Styles :=
  ⟨ok.bare && isBare c, ok.single && isSingle c, ok.double && isDouble c⟩

/-- Whether some way fits. -/
def fits (ok : Styles) : Bool := ok.bare || ok.single || ok.double

/-- The ways that fit a chunk of one character. -/
def first (c : Char) : Styles :=
  if c = '^' then ⟨false, true, false⟩ else (Styles.mk true true true).narrow c

end Styles

/-- A character inside double quotes. -/
def escapeDouble (c : Char) : List Char :=
  if c = '\x22' ∨ c = '\x5c' then ['\x5c', c] else [c]

/-- A chunk in the first way that fits it. -/
def writeChunk (ok : Styles) (chunk : List Char) : List Char :=
  if ok.bare then chunk
  else if ok.single then '\x27' :: chunk ++ ['\x27']
  else '\x22' :: chunk.flatMap escapeDouble ++ ['\x22']

/-! ## 2. Words and lines -/

/-- Writes a word from the middle of a chunk on. -/
def quoteFrom (chunk : List Char) (ok : Styles) : List Char → List Char
  | [] => writeChunk ok chunk
  | c :: r =>
    if (ok.narrow c).fits then quoteFrom (chunk ++ [c]) (ok.narrow c) r
    else writeChunk ok chunk ++ quoteFrom [c] (Styles.first c) r

/-- A word of a command line; the empty word is a pair of single quotes. -/
def quoteChars : List Char → List Char
  | [] => ['\x27', '\x27']
  | c :: r => quoteFrom [c] (Styles.first c) r

/-- A word of a command line. -/
def quote (word : String) : String := String.ofList (quoteChars word.toList)

/-- Whether a word holds the character that no command line can carry. -/
def hasNul (word : String) : Bool := word.toList.contains '\x00'

/-- Words as one line, with blanks between them; as they are, if one of them holds a NUL. -/
def join (words : List String) : String :=
  if words.any hasNul then " ".intercalate words else " ".intercalate (words.map quote)

end SuiteDriver.Shell
