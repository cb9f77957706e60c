import SuiteDriver.Config
import SuiteDriver.Console
import SuiteDriver.OsError

/-!
# Faults

Why a command gave up: a first cause, and around it what the program was about to do, each time in
the language of that moment. A fault is shown from the outside in, with colons between the parts.

`Setup`, `RunCommand` and `InitCommand` end with faults.
-/

namespace SuiteDriver

/-- A launch that the operating system refused. -/
structure LaunchFault where
  kind : StepKind
  command : Command
  source : OsError
deriving DecidableEq, Repr

/-- The launch in words that no language changes. -/
def LaunchFault.message (f : LaunchFault) : String :=
  "failed to launch " ++ f.kind.text ++ " \x60" ++ f.command.line ++ "\x60"

/-- What went wrong at first. -/
inductive Cause
  | system (e : OsError)
  | config (e : Config.ParseError)
  | unsetVariable (name : String)
  | launch (f : LaunchFault)
  /-- A message tells all. -/
  | stated
deriving DecidableEq, Repr

namespace Cause

/-- The cause in words, from the outside in. -/
def messages : Cause → List String
  | system e => [e.message]
  | config .malformed => ["<TOML syntax error>"]
  | config .tooDeep => ["recursion limit\n"]
  | config (.refused place problem) => [place.report problem.message]
  | unsetVariable name =>
    ["error looking key '" ++ name ++ "' up: environment variable not found",
      "environment variable not found"]
  | launch f => [f.message, f.source.message]
  | stated => []

/-- The class of the cause. -/
def className : Cause → String
  | system e => e.className
  | config .malformed => "TomlSyntax"
  | config .tooDeep | config (.refused _ _) => "TomlData"
  | unsetVariable _ | stated => "Other"
  | launch _ => "Launch"

end Cause

/-- A cause with what the program was about to do, the outermost first. -/
structure Fault where
  /-- What the program was about to do, in the language of that moment. -/
  contexts : List (Language × Message)
  cause : Cause
deriving DecidableEq, Repr

namespace Fault

/-- The parts of a fault, from the outside in. -/
def messages (f : Fault) : List String :=
  (f.contexts.map fun c => c.2.text c.1) ++ f.cause.messages

/-- The fault in words. -/
def message (f : Fault) : String := ": ".intercalate f.messages

/-- The class of a fault: that of its cause. -/
def className (f : Fault) : String := f.cause.className

/-- The fault as the program's last words; what cannot be parsed is not described further. -/
def complaint (f : Fault) : String :=
  "Error: " ++ f.message ++ (if f.cause = .config .malformed then "" else "\n")

end Fault

end SuiteDriver
