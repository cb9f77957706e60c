import SuiteDriver.CommandLine.Vocabulary
import SuiteDriver.Text.Visible

/-!
# Misuse of the command line

What can be wrong with the words of a command line, and the first paragraph of what is said about
it. Where nothing is coloured, a word is shown without what only a terminal understands.

`CommandLine/Parse` finds at most one misuse.
-/

namespace SuiteDriver.CommandLine

/-- What is wrong with the words. -/
inductive Misuse
  | unknownArgument (word : String)
  | unknownSubcommand (word : String)
  | invalidValue (value : String)
  | missingValue (o : Opt)
  | unneededValue (value : String) (f : Flag)
  /-- A flag or an option that is given twice at one level. -/
  | repeated (name : Name)
deriving DecidableEq, Repr

namespace Misuse

/-- The values that an option is limited to, in brackets. -/
def possibleValues : String :=
  "[possible values: " ++ ", ".intercalate Variant.names ++ "]"

/-- A flag or an option as messages name it. -/
def displayName : Name → String
  | .flag f => f.display
  | .opt o => o.display

/-- A word as it is shown. -/
def shown (colours : Bool) (word : String) : String := if colours then word else Text.visible word

/-- What is said about a misuse, in one paragraph. -/
def message (colours : Bool) : Misuse → String
  | unknownArgument word => "error: unexpected argument '" ++ shown colours word ++ "' found"
  | unknownSubcommand word => "error: unrecognized subcommand '" ++ shown colours word ++ "'"
  | invalidValue value =>
    "error: invalid value '" ++ shown colours value ++ "' for '" ++ Opt.variant.display ++
      "'\n  " ++ possibleValues
  | missingValue o =>
    "error: a value is required for '" ++ o.display ++ "' but none was supplied" ++
      (if o = .variant then "\n  " ++ possibleValues else "")
  | unneededValue value f =>
    "error: unexpected value '" ++ shown colours value ++ "' for '" ++ f.display ++
      "' found; no more were expected"
  | repeated name =>
    "error: the argument '" ++ displayName name ++ "' cannot be used multiple times"

/-- The class of a misuse. -/
def className : Misuse → String
  | unknownArgument _ => "UnknownArgument"
  | unknownSubcommand _ => "InvalidSubcommand"
  | invalidValue _ | missingValue _ => "InvalidValue"
  | unneededValue _ _ => "TooManyValues"
  | repeated _ => "ArgumentConflict"

end Misuse

end SuiteDriver.CommandLine
