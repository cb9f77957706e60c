import SuiteDriver.Duration
import SuiteDriver.Step

/-!
# Reports

A report holds how every launched step ended, in launch order. Exit codes are recorded and never
decide what a completed run reports to its caller.

`Run` builds reports by `Report.push`.
-/

namespace SuiteDriver

/-- How a launched step ended. -/
structure Outcome where
  step : Step
  /-- None if the step ended without one. -/
  exitCode : Option Int
  duration : Duration
deriving DecidableEq, Repr, Inhabited

/-- Whether the step ended with code zero. -/
def Outcome.succeeded (o : Outcome) : Bool := o.exitCode == some 0

/-- The outcomes of the steps launched so far. -/
structure Report where
  outcomes : List Outcome
deriving DecidableEq, Repr, Inhabited

namespace Report

/-- The report before the first launch. -/
def empty : Report := ⟨[]⟩

/-- The report after one more launch. -/
def push (r : Report) (o : Outcome) : Report := ⟨r.outcomes ++ [o]⟩

/-- How many processes were launched. -/
def launches (r : Report) : Nat := r.outcomes.length

/-- The outcome of the first build step. -/
def buildOutcome? (r : Report) : Option Outcome := r.outcomes.find? fun o => o.step.isBuild

/-- The names of the suites, in launch order. -/
def suiteOrder (r : Report) : List String := r.outcomes.filterMap fun o => o.step.kind.suiteName?

/-- The status that a completed run ends with: success, whatever the steps returned. -/
def exitStatus (_ : Report) : Nat := 0

end Report

end SuiteDriver
