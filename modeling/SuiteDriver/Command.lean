import SuiteDriver.Shell.Quote

/-!
# Commands

A command is a program and its arguments. It is shown as one line of shell words.

`Step` gives commands their place in a run.
-/

namespace SuiteDriver

/-- A program and its arguments. -/
structure Command where
  /-- The program's name, or a path to it. -/
  program : String
  args : List String
deriving DecidableEq, Repr, Inhabited

namespace Command

/-- A program without arguments. -/
def ofProgram (program : String) : Command := ⟨program, []⟩

/-- The command with one more argument. -/
def arg (c : Command) (a : String) : Command := { c with args := c.args ++ [a] }

/-- The command with more arguments. -/
def withArgs (c : Command) (as : List String) : Command := { c with args := c.args ++ as }

/-- The words that the operating system is given: the program, then the arguments. -/
def words (c : Command) : List String := c.program :: c.args

/-- The command as one line. -/
def line (c : Command) : String := Shell.join c.words

/-- Whether a word of the command holds a NUL, which no process can be given. -/
def hasNul (c : Command) : Bool := c.words.any Shell.hasNul

end Command

end SuiteDriver
