import SuiteDriver.FileSystem
import SuiteDriver.Plan
import SuiteDriver.Duration

/-!
# Launches

A launch is a step with the mode and the directory in which it is launched. What answers a launch is
a function of everything launched before and of the files at that moment, so that it can stand for
any program.

`Run` gives a launcher its launches one after the other.
-/

namespace SuiteDriver

/-- One process that is to be launched. -/
structure Launch where
  step : Step
  mode : LaunchMode
  directory : String
deriving DecidableEq, Repr, Inhabited

/-- What comes of a launch. -/
structure Answer where
  /-- The exit code, none if it ended without one; or why it could not be launched. -/
  status : Except OsError (Option Int)
  output : String
  files : FileSystem
  elapsed : Duration

/-- What answers launches: from the earlier launches, the files and a launch to what comes of it. -/
abbrev Launcher : Type := List Launch → FileSystem → Launch → Answer

end SuiteDriver
