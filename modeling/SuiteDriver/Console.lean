import SuiteDriver.Ansi
import SuiteDriver.Message
import SuiteDriver.Plan
import SuiteDriver.Report

/-!
# What the console shows

Every line that a run writes for its reader, as a value: what it tells, how it looks, and whether a
blank line stands before it.

`Console.Line.render` is the only text that reaches the standard output besides what the launched
processes write.
-/

namespace SuiteDriver

/-- The mode's name in a language. -/
def LaunchMode.description (language : Language) : LaunchMode → String
  | .spawnThenWait => Message.spawnThenWaitName.text language
  | .blocking => Message.blockingName.text language

/-- The label of a step in a language. -/
def StepKind.label (language : Language) : StepKind → String
  | .build => Message.buildLabel.text language
  | .suite name => (Message.suiteLabel name).text language

namespace Console

/-- A line for the reader of a run. -/
inductive Line
  | projectRoot (path : String)
  | configSource (path : Option String)
  | variantChosen (variant : Variant) (mode : LaunchMode)
  | stepStarted (step : Step)
  | stepFinished (outcome : Outcome)
  | artifactMissing (path : String)
  | dryRunBanner
  | planned (number : Nat) (command : Command)
  | runComplete (count : Nat)
  | configWritten (path : String)
  | configExists (path : String)
deriving DecidableEq, Repr

namespace Line

/-- What the line says in a language. -/
def body (language : Language) : Line → String
  | projectRoot path => (Message.projectRoot path).text language
  | configSource (some path) => (Message.configLoaded path).text language
  | configSource none => Message.configDefaults.text language
  | variantChosen v mode =>
    (Message.variantSelected v.name v.buildTarget v.classpath (mode.description language)).text
      language
  | stepStarted s =>
    (Message.stepStarting (s.kind.label language) s.command.line).text language
  | stepFinished o =>
    match o.exitCode with
    | some code =>
      (Message.stepExited (o.step.kind.label language) (toString code) o.duration.text).text
        language
    | none => (Message.stepTerminated (o.step.kind.label language) o.duration.text).text language
  | artifactMissing path => (Message.artifactMissing path).text language
  | dryRunBanner => Message.dryRunBanner.text language
  | planned number command => "  " ++ toString number ++ ". " ++ command.line
  | runComplete count => (Message.runComplete (toString count)).text language
  | configWritten path => (Message.configWritten path).text language
  | configExists path => (Message.configExists path).text language

/-- How the line looks. A step that ended with code zero is green, with another code red, without
one yellow. -/
def style : Line → Style
  | projectRoot _ | configSource (some _) | planned _ _ => .plain
  | configSource none => .dimmed
  | variantChosen _ _ => .coloured .cyan
  | stepStarted _ => .boldColoured .blue
  | stepFinished o =>
    match o.exitCode with
    | some _ => if o.succeeded then .coloured .green else .coloured .red
    | none => .coloured .yellow
  | artifactMissing _ | configExists _ => .coloured .yellow
  | dryRunBanner | runComplete _ => .bold
  | configWritten _ => .coloured .green

/-- Whether a blank line stands before the line. -/
def isSetOff : Line → Bool
  | stepStarted _ | dryRunBanner | runComplete _ => true
  | _ => false

/-- The line as it is written, with or without colours. -/
def renderChars (language : Language) (colours : Bool) (l : Line) : List Char :=
  let text := (l.body language).toList
  (if l.isSetOff then ['\n'] else []) ++
    (if colours then Ansi.paint l.style text else text) ++ ['\n']

/-- The line as it is written, with or without colours. -/
def render (language : Language) (colours : Bool) (l : Line) : String :=
  String.ofList (l.renderChars language colours)

end Line

/-- The block that a run starts with. -/
def setupLines (root : String) (config : Option String) (plan : Plan) : List Line :=
  [.projectRoot root, .configSource config, .variantChosen plan.variant plan.mode]

/-- The planned commands, numbered from `number`. -/
def plannedLines (number : Nat) : List Step → List Line
  | [] => []
  | s :: ss => .planned number s.command :: plannedLines (number + 1) ss

/-- What a dry run shows of a plan. -/
def planLines (plan : Plan) : List Line := .dryRunBanner :: plannedLines 1 plan.steps

/-- Lines as they are written. -/
def renderAll (language : Language) (colours : Bool) (lines : List Line) : String :=
  String.join (lines.map (Line.render language colours))

/-- Whether the environment asks for colours in the lines of a run, where the output is no
terminal. -/
def coloursWanted (env : Environment) : Bool :=
  match env.get? "CLICOLOR_FORCE" with
  | some v => v != "0"
  | none => false

/-- Whether a variable is set to some text. -/
def isFilled (env : Environment) (name : String) : Bool := (env.get? name).any (· != "")

/-- Whether the environment asks for colours in help and in words about misuse, where the output is
no terminal; there any text asks for them, and another variable forbids them. -/
def pageColoursWanted (env : Environment) : Bool :=
  isFilled env "CLICOLOR_FORCE" && !isFilled env "NO_COLOR"

end Console

end SuiteDriver
