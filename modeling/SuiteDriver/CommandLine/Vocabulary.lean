import SuiteDriver.Locale
import SuiteDriver.Variant

/-!
# The words of the command line

The flags, which stand alone, and the options, which take a value, with their names and the levels
at which they are known: before the subcommand (`program`), or after it (`init`). A name is known
only in full.

`CommandLine/Parse` reads words by these tables.
-/

namespace SuiteDriver.CommandLine

/-- Where on the command line a word stands. -/
inductive Level
  /-- Before the subcommand. -/
  | program
  /-- After the subcommand that writes a configuration. -/
  | init
deriving DecidableEq, Repr, Inhabited

/-! ## 1. Flags -/

/-- A word that stands alone. -/
inductive Flag
  | verbose
  | dryRun
  | force
  | help
  | version
deriving DecidableEq, Repr

namespace Flag

/-- The flag's long name. -/
def longName : Flag → String
  | verbose => "verbose"
  | dryRun => "dry-run"
  | force => "force"
  | help => "help"
  | version => "version"

/-- The flag's short name, if it has one. -/
def shortName? : Flag → Option Char
  | verbose => some 'v'
  | help => some 'h'
  | version => some 'V'
  | dryRun | force => none

/-- The flags known at a level. -/
def known : Level → List Flag
  | .program => [verbose, dryRun, help, version]
  | .init => [force, verbose, help]

/-- The flag as messages name it. -/
def display (f : Flag) : String := "--" ++ f.longName

end Flag

/-! ## 2. Options -/

/-- A word that takes a value. -/
inductive Opt
  | lang
  | projectDir
  | config
  | variant
deriving DecidableEq, Repr

namespace Opt

/-- The option's long name. -/
def longName : Opt → String
  | lang => "lang"
  | projectDir => "project-dir"
  | config => "config"
  | variant => "variant"

/-- The option's short name, if it has one. -/
def shortName? : Opt → Option Char
  | config => some 'c'
  | lang | projectDir | variant => none

/-- What the option's value is called. -/
def valueName : Opt → String
  | lang => "LANGUAGE"
  | projectDir => "PROJECT_DIR"
  | config => "CONFIG"
  | variant => "VARIANT"

/-- The options known at a level. -/
def known : Level → List Opt
  | .program => [lang, projectDir, config, variant]
  | .init => [lang, projectDir]

/-- The option as messages name it. -/
def display (o : Opt) : String := "--" ++ o.longName ++ " <" ++ o.valueName ++ ">"

end Opt

/-! ## 3. Looking names up -/

/-- What a name stands for. -/
inductive Name
  | flag (f : Flag)
  | opt (o : Opt)
deriving DecidableEq, Repr

namespace Name

/-- What a long name stands for at a level. -/
def ofLong? (level : Level) (name : List Char) : Option Name :=
  match (Opt.known level).find? fun o => o.longName.toList = name with
  | some o => some (.opt o)
  | none => ((Flag.known level).find? fun f => f.longName.toList = name).map .flag

/-- What a short name stands for at a level. -/
def ofShort? (level : Level) (c : Char) : Option Name :=
  match (Opt.known level).find? fun o => o.shortName? = some c with
  | some o => some (.opt o)
  | none => ((Flag.known level).find? fun f => f.shortName? = some c).map .flag

end Name

/-- The subcommand that writes a configuration. -/
def initWord : String := "init"

/-- The subcommand that shows help. -/
def helpWord : String := "help"

end SuiteDriver.CommandLine
