import SuiteDriver.Locale
import SuiteDriver.Log.Pattern
import SuiteDriver.Text.Alphanumeric
import SuiteDriver.Text.Split

/-!
# The log

Records of what the program does, for whoever looks for a fault. A record has a level, the module it
comes from, a message and named values. A filter is a list of directives; for each record the most
specific one that concerns it decides, and a record that none concerns is not shown.

`Filter.ofEnvironment` chooses the filter of a run.
-/

namespace SuiteDriver.Log

/-! ## 1. Records -/

/-- How much a record matters, from most to least. -/
inductive Level
  | error
  | warn
  | info
  | debug
  | trace
deriving DecidableEq, Repr, Inhabited

namespace Level

/-- The level as a number, the most important one first. -/
def rank : Level → Nat
  | error => 1
  | warn => 2
  | info => 3
  | debug => 4
  | trace => 5

/-- All levels. -/
def all : List Level := [error, warn, info, debug, trace]

/-- The level's name. -/
def name : Level → String
  | error => "ERROR"
  | warn => "WARN"
  | info => "INFO"
  | debug => "DEBUG"
  | trace => "TRACE"

end Level

/-- One record. -/
structure Record where
  level : Level
  target : String
  message : String
  fields : List (String × String)
deriving DecidableEq, Repr, Inhabited

/-- The record as a line. -/
def Record.line (r : Record) : String :=
  r.level.name ++ " " ++ r.message ++
    String.join (r.fields.map fun f => " " ++ f.1 ++ "=" ++ f.2)

/-! ## 2. Filters -/

/-- What is shown of the records that come from modules whose names start with a target and that
have certain values; without a level, nothing. -/
structure Directive where
  /-- The start of the modules' names; without one, all modules. -/
  target : Option String
  /-- The names of the values that a record has to have. -/
  fields : List String
  /-- The least important level that is shown. -/
  level : Option Level
deriving DecidableEq, Repr

/-- Directives; of two that concern the same records the later counts. -/
abbrev Filter : Type := List Directive

/-- The names of the values of a record; its message is one of them. -/
def Record.fieldNames (r : Record) : List String := "message" :: r.fields.map Prod.fst

namespace Directive

/-- Whether the directive concerns a record. -/
def concerns (d : Directive) (r : Record) : Bool :=
  (match d.target with
    | some t => t.toList.isPrefixOf r.target.toList
    | none => true) &&
    d.fields.all r.fieldNames.contains

/-- Whether the directive shows a record that it concerns. -/
def shows (d : Directive) (r : Record) : Bool :=
  match d.level with
  | some l => r.level.rank ≤ l.rank
  | none => false

/-- How much of a module's name the directive fixes. -/
def reach (d : Directive) : Nat :=
  match d.target with
  | some t => t.utf8ByteSize + 1
  | none => 0

/-- Whether a directive is at least as specific as another that concerns the same record: by a
longer target, then by more names, then by the order of the names. -/
def refines (d other : Directive) : Bool :=
  if d.reach ≠ other.reach then other.reach < d.reach
  else if d.fields.length ≠ other.fields.length then other.fields.length < d.fields.length
  else !decide (d.fields < other.fields)

end Directive

/-- The more specific of two directives, the second if they are equally so. -/
def moreSpecific (best : Option Directive) (d : Directive) : Option Directive :=
  match best with
  | none => some d
  | some b => if d.refines b then some d else some b

/-- Whether a filter shows a record. -/
def Filter.shows (f : Filter) (r : Record) : Bool :=
  match (f.filter fun d => d.concerns r).foldl moreSpecific none with
  | some d => d.shows r
  | none => false

/-! ## 3. Reading filters -/

/-- Letters in lower case, of the basic alphabet. -/
def lowerCase (s : List Char) : List Char := s.map Char.toLower

/-- The number that a text writes, with or without a plus in front. -/
def number? (s : List Char) : Option Nat :=
  let digits := if s.head? = some '+' then s.tail else s
  if digits ≠ [] ∧ digits.all Char.isDigit then
    some (digits.foldl (fun n c => 10 * n + (c.toNat - '0'.toNat)) 0)
  else none

/-- A level as a filter names it: by its number or, in any case, by its name; zero and `off` show
nothing. -/
def levelNamed? (s : List Char) : Option (Option Level) :=
  match number? s with
  | some 0 => some none
  | some n => (Level.all.find? fun l => l.rank = n).map some
  | none =>
    if lowerCase s = "off".toList then some none
    else (Level.all.find? fun l => lowerCase l.name.toList = lowerCase s).map some

/-- Whether a directive may start with a character. -/
def startsDirective (c : Char) : Bool :=
  Text.isAlphanumeric c || c == '-' || c == ':' || c == '_'

/-- Characters that count as white space. -/
def isSpace (c : Char) : Bool :=
  c == ' ' || (0x09 ≤ c.toNat && c.toNat ≤ 0x0D) || c.toNat == 0x85 || c.toNat == 0xA0 ||
    c.toNat == 0x1680 || (0x2000 ≤ c.toNat && c.toNat ≤ 0x200A) || c.toNat == 0x2028 ||
    c.toNat == 0x2029 || c.toNat == 0x202F || c.toNat == 0x205F || c.toNat == 0x3000

/-- A level after an equals sign; no name stands for the last level. -/
def levelAfter? (s : List Char) : Option (Option Level) :=
  if s = [] then some (some .trace) else levelNamed? s

/-- How far a directive has been read. A number is where the part began that is being read. -/
inductive Reading
  | nothing
  /-- A target, or a level alone. -/
  | target
  /-- The name of a span, after its bracket. -/
  | span (since : Nat)
  /-- A named value, after its brace. -/
  | field (since : Nat)
  /-- The brace after a named value. -/
  | fields
  /-- The bracket that ends the part about spans. -/
  | closed
  /-- A level, after its equals sign. -/
  | level (since : Nat)
deriving DecidableEq, Repr

/-- What a directive asks of a record: that it has a value of some name, or one like a pattern. -/
structure NamedValue where
  name : String
  /-- Whether a value is asked for as well. -/
  hasValue : Bool
deriving DecidableEq, Repr

/-- Whether a text can be asked for as a value: a number with a plus in front, or a pattern. -/
def isValueText (s : List Char) : Bool := (number? s).isSome || isPattern s

/-- A named value: a name, or a name, an equals sign and what the value has to be like. -/
def NamedValue.ofText? (s : List Char) : Option NamedValue :=
  if s = [] then none
  else
    match Text.splitAt '=' s with
    | name :: value :: _ =>
      if isValueText value then some ⟨String.ofList name, true⟩ else none
    | _ => some ⟨String.ofList s, false⟩

/-- A directive as far as it has been read. -/
structure Draft where
  reading : Reading
  target : Option String
  /-- Whether the directive is about a span of some name. -/
  named : Bool
  field : Option NamedValue

/-- The characters of a text from one position up to another. -/
def slice (s : List Char) (since upTo : Nat) : List Char := (s.take upTo).drop since

/-- What the character `c` at position `i` makes of a directive that is read from `s`. -/
def Draft.step (s : List Char) (d : Draft) (i : Nat) (c : Char) : Option Draft :=
  match d.reading with
  | .nothing =>
    if c = '[' then some { d with reading := .span (i + 1) }
    else if startsDirective c then some { d with reading := .target }
    else none
  | .target =>
    let target := some (String.ofList (slice s 0 i))
    if c = '=' then some { d with reading := .level (i + 1), target := target }
    else if c = '[' then some { d with reading := .span (i + 1), target := target }
    else some d
  | .span since =>
    if c = ']' then some { d with reading := .closed, named := true }
    else if c = '\x7b' then
      some { d with reading := .field (i + 1), named := !(slice s since i).isEmpty }
    else some d
  | .field since =>
    if c = '\x7d' then
      (NamedValue.ofText? (slice s since i)).map fun f =>
        { d with reading := .fields, field := some f }
    else some d
  | .fields => if c = ']' then some { d with reading := .closed } else none
  | .closed => if c = '=' then some { d with reading := .level (i + 1) } else none
  | .level _ => some d

/-- Reads characters, the first of them at position `i`. -/
def Draft.readFrom (s : List Char) (d : Draft) (i : Nat) : List Char → Option Draft
  | [] => some d
  | c :: r => (d.step s i c).bind fun e => e.readFrom s (i + 1) r

/-- The directive that has been read. One about a span of some name, or about a value, concerns no
record, because the program opens no spans. -/
def Draft.directive (d : Draft) (level : Option Level) : List Directive :=
  if d.named then []
  else
    match d.field with
    | none => [⟨d.target, [], level⟩]
    | some f => if f.hasValue then [] else [⟨d.target, [f.name], level⟩]

/-- A directive: a level for all modules, a target at the last level, or a target, a span with a
named value, or both, with a level. Space around it is skipped, but positions are counted without
the space in front and looked up with it. -/
def directive? (s : List Char) : Option (List Directive) :=
  let bare := ((s.dropWhile isSpace).reverse.dropWhile isSpace).reverse
  match Draft.readFrom s ⟨.nothing, none, false, none⟩ 0 bare with
  | none => none
  | some d =>
    match d.reading with
    | .target =>
      match levelNamed? s with
      | some level => some [⟨none, [], level⟩]
      | none => some [⟨some (String.ofList s), [], some .trace⟩]
    | .closed => some (d.directive (some .trace))
    | .level since => (levelAfter? (s.drop since)).map d.directive
    | _ => none

/-- The filter that a text writes: directives with commas between them. The empty text, and one of
commas alone, show nothing. -/
def Filter.ofText? (s : String) : Option Filter :=
  (((Text.splitAt ',' s.toList).filter (· ≠ [])).mapM directive?).map List.flatten

/-- The filter of a run: the environment's if it has a valid one, else by level alone. -/
def Filter.ofEnvironment (env : Environment) (verbose : Bool) : Filter :=
  ((env.get? "RUST_LOG").bind Filter.ofText?).getD
    [⟨none, [], some (if verbose then .debug else .warn)⟩]

/-! ## 4. The program's records -/

/-- The language was chosen. -/
def languageChosen (tag : String) : Record :=
  ⟨.debug, "sst_test_driver::cli", "resolved display language", [("locale", tag)]⟩

/-- A run was planned. -/
def runPlanned (variant root : String) : Record :=
  ⟨.debug, "sst_test_driver::cli::commands::run", "planned run",
    [("variant", variant), ("root", root)]⟩

/-- The module that launches steps. -/
def launching : String := "sst_test_driver::core::execution"

/-- A process is about to be launched. -/
def processSpawned (command directory mode : String) : Record :=
  ⟨.debug, launching, "spawning child process",
    [("command", command), ("cwd", directory), ("mode", mode)]⟩

/-- An exit code, or its absence. -/
def codeText : Option Int → String
  | some code => "Some(" ++ toString code ++ ")"
  | none => "None"

/-- A process has ended. -/
def processExited (step : String) (code : Option Int) (millis : Nat) : Record :=
  ⟨.info, launching, "child process exited",
    [("step", step), ("exit_code", codeText code), ("duration_ms", toString millis)]⟩

/-- The artifact is missing after a build step. -/
def artifactMissing (classpath : String) : Record :=
  ⟨.warn, launching, "build artifact missing", [("artifact", "\"" ++ classpath ++ "\"")]⟩

/-- A process could not be launched. -/
def launchFailed (command reason : String) : Record :=
  ⟨.error, launching, "launch failed", [("command", command), ("error", reason)]⟩

end SuiteDriver.Log
