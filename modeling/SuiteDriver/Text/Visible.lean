/-!
# What a terminal shows of a text

A text may hold sequences that tell a terminal what to do, and control characters. Nothing of them is
seen; white space is. A sequence starts with an escape, and what follows decides where it ends: a
control sequence ends with a letter or a sign, a command to the terminal's system with a bell, and
other strings of data with the next escape.

`CommandLine/Misuse` shows words with `visible`.
-/

namespace SuiteDriver.Text

/-- What a terminal is in the middle of. -/
inductive Terminal
  | ground
  | escape
  /-- After an escape and signs that select what the next character means. -/
  | selection
  | control
  /-- A command to the system, up to a bell. -/
  | command
  /-- Other data, up to the next escape. -/
  | data
deriving DecidableEq, Repr

namespace Terminal

/-- Whether a control character is seen as white space. -/
def isSeen (c : Char) : Bool := c == '\t' || c == '\n' || c == '\x0c' || c == '\r'

/-- Whether a character is in a range of code points. -/
def isWithin (c : Char) (low high : Nat) : Bool := low ≤ c.toNat && c.toNat ≤ high

/-- What a character just after an escape leads to. -/
def afterEscape (c : Char) : Terminal :=
  if c = '[' then .control
  else if c = ']' then .command
  else if c = 'P' ∨ c = 'X' ∨ c = '^' ∨ c = '_' then .data
  else if isWithin c 0x20 0x2F then .selection
  else if isWithin c 0x30 0x7E then .ground
  else .escape

/-- What a character leads to. An escape starts anew from everywhere, and two control characters
give up what was begun; white space is seen wherever it is not data, and ends what was begun. -/
def next (t : Terminal) (c : Char) : Terminal :=
  if c = '\x1b' then .escape
  else if c = '\x18' ∨ c = '\x1a' then .ground
  else
    match t with
    | .ground => .ground
    | .escape => if isSeen c then .ground else afterEscape c
    | .selection => if isSeen c || isWithin c 0x30 0x7E then .ground else .selection
    | .control => if isSeen c || isWithin c 0x40 0x7E then .ground else .control
    | .command => if c = '\x07' then .ground else .command
    | .data => .data

/-- Whether a character is seen. -/
def shows (t : Terminal) (c : Char) : Bool :=
  match t with
  | .ground => isSeen c || (0x20 ≤ c.toNat && c.toNat != 0x7F)
  | .escape | .selection | .control => isSeen c
  | .command | .data => false

/-- The characters of a text that are seen. -/
def view (t : Terminal) : List Char → List Char
  | [] => []
  | c :: r => if t.shows c then c :: view (t.next c) r else view (t.next c) r

end Terminal

/-- What is seen of a text. -/
def visible (s : String) : String := String.ofList (Terminal.ground.view s.toList)

end SuiteDriver.Text
