import SuiteDriver.Run
import SuiteDriver.Setup

/-!
# The two commands

The default command runs the plan that its setup finds, or only shows it. The other one writes a
configuration for a start. Each tells all that happens, the language that it ended in, how it ended,
and the files after it.

`Program` chooses between `RunCommand` and `InitCommand`.
-/

namespace SuiteDriver

/-- All that a command did. -/
structure Performance (α : Type) where
  /-- The language that it ended in, and in which all its lines are shown. -/
  language : Language
  events : List Event
  result : Except Fault α
  files : FileSystem

namespace Performance

/-- A command that gave up before anything happened. -/
def refused {α : Type} (language : Language) (files : FileSystem) (e : Fault) : Performance α :=
  ⟨language, [], .error e, files⟩

end Performance

/-! ## 1. The default command -/

namespace RunCommand

/-- What is told once the setup is done. -/
def setupEvents (s : Setup) : List Event :=
  .logged (Log.runPlanned s.plan.variant.logName s.root) ::
    (Console.setupLines s.root s.configPath s.plan).map .said

/-- The fault of a run whose step could not be launched. -/
def launchFault (language : Language) (f : LaunchFault) : Fault :=
  ⟨[(language, .launchFailed (f.kind.label language) f.command.line)], .launch f⟩

/-- What follows the setup: the plan is shown, or run to its end. -/
def carryOut (s : Surroundings) (launcher : Launcher) (language : Language) (dryRun : Bool)
    (setup : Setup) : Performance (Option Report) :=
  if dryRun then
    { language := language
      events := setupEvents setup ++ (Console.planLines setup.plan).map .said
      result := .ok none
      files := s.files }
  else
    let run := Run.ofPlan setup.plan setup.root launcher s.files
    match run.result with
    | .error f =>
      { language := language
        events := setupEvents setup ++ run.events
        result := .error (launchFault language f)
        files := run.files }
    | .ok report =>
      { language := language
        events := setupEvents setup ++ run.events ++ [.said (.runComplete report.launches)]
        result := .ok (some report)
        files := run.files }

/-- Runs all steps in order, or shows them. -/
def execute (s : Surroundings) (launcher : Launcher) (language : Language)
    (options : RunOptions) : Performance (Option Report) :=
  match Setup.prepare s language options with
  | (l, .error e) => Performance.refused l s.files e
  | (l, .ok setup) => carryOut s launcher l options.dryRun setup

end RunCommand

/-! ## 2. Writing a configuration -/

namespace InitCommand

/-- Writes the standard configuration into a directory. One that is there is left alone unless
`force` is set, and that is no failure. -/
def execute (s : Surroundings) (language : Language) (projectDir : Option String)
    (force : Bool) : Performance Unit :=
  match ProjectDir.resolve s.env s.files language (projectDir.getD ".") "." with
  | .error e => Performance.refused language s.files e
  | .ok root =>
    let path := Path.join root ConfigFile.standardName
    match ConfigFile.write s.files language path ConfigFile.standardText force with
    | .error e => Performance.refused language s.files e
    | .ok (true, files) => ⟨language, [.said (.configWritten path)], .ok (), files⟩
    | .ok (false, files) => ⟨language, [.said (.configExists path)], .ok (), files⟩

end InitCommand

end SuiteDriver
