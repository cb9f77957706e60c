import SuiteDriver.ConfigFile
import SuiteDriver.ProjectDir

/-!
# Before a run

What a run needs is found out first, and in full: the directory to search, the configuration, the
language, the root of the project, and the plan. An option that is given wins over the
configuration, and a value that is overridden is not even looked at. Nothing is shown or changed
here.

`Setup.prepare` is the whole of it.
-/

namespace SuiteDriver

/-- What a caller asks of a run; nothing stands for what was not given. -/
structure RunOptions where
  config : Option String
  projectDir : Option String
  variant : Option Variant
  dryRun : Bool
  languageGiven : Bool
deriving DecidableEq, Repr, Inhabited

/-- What a run is given by its surroundings. -/
structure Surroundings where
  env : Environment
  files : FileSystem

/-- Everything that a run needs to know. -/
structure Setup where
  root : String
  configPath : Option String
  plan : Plan
deriving DecidableEq, Repr

namespace Setup

/-- The directory that a configured project directory is seen from: that of the configuration, else
the one that was searched. -/
def configBase (configPath : Option String) (searched : String) : String :=
  (configPath.bind Path.parent?).getD searched

/-- The root of the project: the directory that the caller gave, else the configured one, else the
current one. -/
def chooseRoot (s : Surroundings) (language : Language) (options : RunOptions) (config : Config)
    (configPath : Option String) (searched : String) : Except Fault String :=
  match options.projectDir, config.projectDir with
  | none, some configured =>
    ProjectDir.resolve s.env s.files language configured (configBase configPath searched)
  | _, _ => .ok searched

/-- The language of a run once its configuration is read. -/
def configLanguage (s : Surroundings) (language : Language) (options : RunOptions)
    (config : Config) : Language :=
  match config.language, options.languageGiven with
  | some l, false => Language.choose s.env (some l)
  | _, _ => language

/-- Finds out what a run needs. The language is told also when something fails after it was
chosen. -/
def prepare (s : Surroundings) (language : Language) (options : RunOptions) :
    Language × Except Fault Setup :=
  match ProjectDir.resolve s.env s.files language (options.projectDir.getD ".") "." with
  | .error e => (language, .error e)
  | .ok searched =>
    match ConfigFile.discover s.files language options.config searched with
    | .error e => (language, .error e)
    | .ok (config, configPath) =>
      let chosen := configLanguage s language options config
      match chooseRoot s chosen options config configPath searched with
      | .error e => (chosen, .error e)
      | .ok root => (chosen, .ok ⟨root, configPath, (options.variant.getD config.variant).plan⟩)

end Setup

end SuiteDriver
