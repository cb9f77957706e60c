import SuiteDriver.Command

/-!
# Steps

A step is a command with the role that it plays in a run: it builds the artifact, or it runs a suite
of a given name.

`Plan` puts steps in order and `Report` records how they ended.
-/

namespace SuiteDriver

/-- What a step is for. -/
inductive StepKind
  | build
  | suite (name : String)
deriving DecidableEq, Repr, Inhabited

namespace StepKind

/-- The kind in words that no language changes. -/
def text : StepKind → String
  | .build => "build step"
  | .suite name => "suite " ++ name

/-- The name of the suite, if it is one. -/
def suiteName? : StepKind → Option String
  | .build => none
  | .suite name => some name

end StepKind

/-- A command with its role. -/
structure Step where
  kind : StepKind
  command : Command
deriving DecidableEq, Repr, Inhabited

namespace Step

/-- A step that builds. -/
def build (c : Command) : Step := ⟨.build, c⟩

/-- A step that runs a suite. -/
def suite (name : String) (c : Command) : Step := ⟨.suite name, c⟩

/-- Whether the step builds. -/
def isBuild (s : Step) : Bool := s.kind == .build

end Step

end SuiteDriver
