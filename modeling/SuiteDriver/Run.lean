import SuiteDriver.Fault
import SuiteDriver.Launch
import SuiteDriver.Log

/-!
# Runs

A run launches the steps of a plan one after the other, each only after the one before has ended. An
exit code is recorded and stops nothing; a step that cannot be launched stops the run. After each
build step it is tested once whether the artifact is there.

`Run.ofPlan` is the run of a plan, as the list of all that happens and the report or the fault in
the end.
-/

namespace SuiteDriver

/-- One thing that happens in a run. -/
inductive Event
  | said (line : Console.Line)
  | logged (record : Log.Record)
  | launched (launch : Launch)
  /-- The launch is answered, and this is what the process wrote. -/
  | answered (status : Except OsError (Option Int)) (output : String)
  | tested (path : String) (present : Bool)
deriving Repr

/-- All that happens in a run, and how it ends. -/
structure Run where
  events : List Event
  result : Except LaunchFault Report
  files : FileSystem

namespace Run

/-- How far a run has come. -/
structure Progress where
  launches : List Launch
  report : Report
  files : FileSystem

/-- What is told of a step that has ended. -/
def eventsOfEnd (o : Outcome) : List Event :=
  [.logged (Log.processExited o.step.kind.text o.exitCode o.duration.millis),
    .said (.stepFinished o)]

/-- The test for the artifact, after a build step. -/
def artifactEvents (variant : Variant) (dir : String) (files : FileSystem) (s : Step) :
    List Event :=
  if s.isBuild then
    let path := Path.join dir variant.classpath
    let present := files.hasEntry path
    .tested path present ::
      (if present then []
      else
        [.logged (Log.artifactMissing variant.classpath),
          .said (.artifactMissing variant.classpath)])
  else []

/-- What happens up to the moment a step is launched. -/
def startEvents (l : Launch) : List Event :=
  [.said (.stepStarted l.step),
    .logged (Log.processSpawned l.step.command.line l.directory l.mode.logName), .launched l]

/-- Launches steps, from some progress on. -/
def steps (variant : Variant) (mode : LaunchMode) (dir : String) (launcher : Launcher)
    (p : Progress) : List Step → Run
  | [] => ⟨[], .ok p.report, p.files⟩
  | s :: ss =>
    let l : Launch := ⟨s, mode, dir⟩
    let a := launcher p.launches p.files l
    match a.status with
    | .error e =>
      { events :=
          startEvents l ++
            [.answered a.status a.output, .logged (Log.launchFailed s.command.line e.message)]
        result := .error ⟨s.kind, s.command, e⟩
        files := a.files }
    | .ok code =>
      let o : Outcome := ⟨s, code, a.elapsed⟩
      let rest := steps variant mode dir launcher ⟨p.launches ++ [l], p.report.push o, a.files⟩ ss
      { rest with
        events :=
          startEvents l ++ .answered a.status a.output ::
            (eventsOfEnd o ++ artifactEvents variant dir a.files s ++ rest.events) }

/-- The run of a plan in a directory. -/
def ofPlan (plan : Plan) (dir : String) (launcher : Launcher) (files : FileSystem) : Run :=
  steps plan.variant plan.mode dir launcher ⟨[], Report.empty, files⟩ plan.steps

end Run

namespace Event

/-- What an event adds to the standard output. -/
def output (language : Language) (colours : Bool) : Event → String
  | said line => line.render language colours
  | answered _ text => text
  | _ => ""

/-- The record of an event. -/
def record? : Event → Option Log.Record
  | logged r => some r
  | _ => none

/-- The launch of an event. -/
def launch? : Event → Option Launch
  | launched l => some l
  | _ => none

end Event

/-- What events put on the standard output. -/
def outputOf (language : Language) (colours : Bool) (events : List Event) : String :=
  String.join (events.map (Event.output language colours))

/-- The launches among events. -/
def launchesOf (events : List Event) : List Launch := events.filterMap Event.launch?

end SuiteDriver
