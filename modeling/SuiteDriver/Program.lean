import SuiteDriver.CommandLine.Parse
import SuiteDriver.Commands

/-!
# The program

From the words of the command line and a host to everything that can be observed: the exit status,
the standard output, the log, the last words on the error output, and the files.

`Program.run` is what `Main` hands its arguments to.
-/

namespace SuiteDriver

/-- What the program runs on. -/
structure Host where
  env : Environment
  files : FileSystem
  launcher : Launcher

/-- The host as commands see it. -/
def Host.surroundings (h : Host) : Surroundings := ⟨h.env, h.files⟩

/-- How the program ended and what it did. -/
structure Exit where
  status : Nat
  /-- Text that is shown instead of a run. -/
  page : String
  events : List Event
  language : Language
  colours : Bool
  log : Log.Filter
  /-- The last words, on the error output. -/
  complaint : String
  files : FileSystem

namespace Exit

/-- Everything on the standard output. -/
def stdout (x : Exit) : String := x.page ++ outputOf x.language x.colours x.events

/-- The records of the log that are shown. -/
def records (x : Exit) : List Log.Record :=
  (x.events.filterMap Event.record?).filter fun r => x.log.shows r

/-- The processes that were to be launched. -/
def launches (x : Exit) : List Launch := launchesOf x.events

end Exit

namespace Program

/-! The statuses of an exit; a report has its own. -/

def success : Nat := 0
def failure : Nat := 1
def misused : Nat := 2

open CommandLine

/-- The end of a program that stopped before a command was known. -/
def stopped (h : Host) (language : Language) (s : Stop) : Exit :=
  { status := match s with
      | .misuse _ => misused
      | _ => success
    page := match s with
      | .help p => p.text language (Console.pageColoursWanted h.env)
      | .version => versionText
      | .misuse _ => ""
    events := []
    language := language
    colours := false
    log := []
    complaint := match s with
      | .misuse m => m.message (Console.pageColoursWanted h.env)
      | _ => ""
    files := h.files }

/-- The end of a program whose command was carried out, or gave up. -/
def performed {α : Type} (h : Host) (first : Language) (verbose : Bool) (status : α → Nat)
    (p : Performance α) : Exit :=
  { status := match p.result with
      | .ok a => status a
      | .error _ => failure
    page := ""
    events := .logged (Log.languageChosen first.tag) :: p.events
    language := p.language
    colours := Console.coloursWanted h.env
    log := Log.Filter.ofEnvironment h.env verbose
    complaint := match p.result with
      | .ok _ => ""
      | .error f => f.complaint
    files := p.files }

/-- What the command line asks of the default command. -/
def runOptions (a : Args) : RunOptions :=
  ⟨a.config, a.projectDir, a.variant, a.dryRun, a.language.isSome⟩

/-- The status of a run that was carried out: a dry run succeeds, and a report says its own. -/
def runStatus : Option Report → Nat
  | some r => r.exitStatus
  | none => success

/-- The command that a command line asks for. -/
def perform (h : Host) (language : Language) (a : Args) : Exit :=
  match a.init with
  | some force =>
    performed h language a.verbose (fun _ => success)
      (InitCommand.execute h.surroundings language a.projectDir force)
  | none =>
    performed h language a.verbose runStatus
      (RunCommand.execute h.surroundings h.launcher language (runOptions a))

/-- The whole program. -/
def run (h : Host) (words : List String) : Exit :=
  let language := Language.choose h.env (requestedLanguage words)
  match parse words with
  | .error s => stopped h language s
  | .ok a => perform h language a

end Program

end SuiteDriver
