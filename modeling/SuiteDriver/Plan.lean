import SuiteDriver.Step
import SuiteDriver.Variant

/-!
# Plans

A plan is one build step followed by suite steps, with one launch mode for all of them. The plan of
a variant calls the build tool once and then the runtime once per suite, each time with the same
flags and the variant's classpath.

`Run` launches the steps of a plan.
-/

namespace SuiteDriver

/-! ## 1. The fixed vocabulary -/

/-- The build tool. -/
def buildTool : String := "make"

/-- The runtime that hosts the suites. -/
def runtime : String := "java"

/-- Flags of every call of the runtime, in front of the classpath. -/
def runtimeFlags : List String :=
  ["-ea", "-XX:+AggressiveHeap", "-XX:+AllowUserSignalHandlers", "-Xcheck:jni"]

/-- The entry points of the suites, in launch order. -/
def testSuites : List String :=
  ["shared.test.All", "shared.test.Demo", "shared.test.AllNative", "sharedx.test.AllX"]

/-! ## 2. Plans -/

/-- Everything that one run launches. -/
structure Plan where
  /-- The variant that the plan is for; it decides which artifact is looked for. -/
  variant : Variant
  mode : LaunchMode
  build : Step
  suites : List Step
deriving DecidableEq, Repr, Inhabited

namespace Plan

/-- All steps, in launch order. -/
def steps (p : Plan) : List Step := p.build :: p.suites

end Plan

namespace Variant

/-- The call of the build tool. -/
def buildCommand (v : Variant) : Command := (Command.ofProgram buildTool).arg v.buildTarget

/-- The call of the runtime, but for the suite. -/
def runtimeCommand (v : Variant) : Command :=
  ((Command.ofProgram runtime).withArgs runtimeFlags).withArgs ["-cp", v.classpath]

/-- The plan of a variant. -/
def plan (v : Variant) : Plan :=
  { variant := v
    mode := v.launchMode
    build := Step.build v.buildCommand
    suites := testSuites.map fun name => Step.suite name (v.runtimeCommand.arg name) }

end Variant

end SuiteDriver
