/-!
# Variants of a run

The three ways to build the artifact and to launch the suites. They differ in the target of the
build tool, in the classpath of the suites and in how a child process is awaited, and in nothing
else.

A variant is named in two places, and each has its own way to know the names: the command line
looks at a list of them (`Variant.names`) and then searches the variant (`Variant.ofName?`), and a
configuration has names that are made from those of the log (`Variant.configName`).
-/

namespace SuiteDriver

/-! ## 1. Launch modes -/

/-- How a child process is started and awaited. -/
inductive LaunchMode
  | spawnThenWait
  | blocking
deriving DecidableEq, Repr, Inhabited

namespace LaunchMode

/-- The mode's name. -/
def name : LaunchMode → String
  | .spawnThenWait => "spawn-then-wait"
  | .blocking => "blocking"

/-- The mode with this name. -/
def ofName? (s : String) : Option LaunchMode :=
  [LaunchMode.spawnThenWait, .blocking].find? fun m => m.name = s

/-- The mode as the log writes it. -/
def logName : LaunchMode → String
  | .spawnThenWait => "SpawnThenWait"
  | .blocking => "Blocking"

end LaunchMode

/-! ## 2. Variants -/

/-- What is built and how the suites are launched. -/
inductive Variant
  | jar
  | compile
  | sync
deriving DecidableEq, Repr, Inhabited

namespace Variant

/-- All variants. -/
def all : List Variant := [.jar, .compile, .sync]

/-- The variant of a run that names none. -/
def standard : Variant := .jar

/-- The variant's name. -/
def name : Variant → String
  | .jar => "jar"
  | .compile => "compile"
  | .sync => "sync"

/-- The variant with this name. -/
def ofName? (s : String) : Option Variant := all.find? fun v => v.name = s

/-- A variant is found by its own name and by no other. -/
theorem ofName?_eq_some_iff {s : String} {v : Variant} : ofName? s = some v ↔ v.name = s := by
  constructor
  · intro h
    have hname := List.find?_some h
    exact of_decide_eq_true hname
  · rintro rfl
    cases v <;> rfl

/-- The names of all variants. -/
def names : List String := all.map name

/-- The names are those by which a variant is found. -/
theorem mem_names_iff {s : String} : s ∈ names ↔ ∃ v, ofName? s = some v := by
  simp only [ofName?_eq_some_iff]
  constructor
  · intro h
    obtain ⟨v, -, hv⟩ := List.mem_map.mp h
    exact ⟨v, hv⟩
  · rintro ⟨v, rfl⟩
    cases v <;> simp [names, all]

/-- The text about a name that no variant has. -/
def unknownName (s : String) : String :=
  "unknown variant '" ++ s ++ "' (expected one of: jar, compile, sync)"

/-- The variant as the log writes it. -/
def logName : Variant → String
  | .jar => "Jar"
  | .compile => "Compile"
  | .sync => "Sync"

/-- A word in small letters, with a dash in front of each that was a capital, but for the first. -/
def kebab : List Char → List Char
  | [] => []
  | c :: r => c.toLower :: r.flatMap fun d => if d.isUpper then ['-', d.toLower] else [d.toLower]

/-- The variant's name in a configuration, made from the one in the log. -/
def configName (v : Variant) : String := String.ofList (kebab v.logName.toList)

/-- The variant with this name in a configuration. -/
def ofConfigName? (s : String) : Option Variant := all.find? fun v => v.configName = s

/-- Both names of a variant are the same. -/
theorem configName_eq_name (v : Variant) : v.configName = v.name := by
  cases v <;> decide

/-- A configuration names a variant by its name and by no other. -/
theorem ofConfigName?_eq_some_iff {s : String} {v : Variant} :
    ofConfigName? s = some v ↔ v.name = s := by
  constructor
  · intro h
    have hname : v.configName = s := by simpa using List.find?_some h
    rw [← configName_eq_name, hname]
  · rintro rfl
    cases v <;> decide

/-- What the build tool is asked to make. -/
def buildTarget : Variant → String
  | .compile => "java"
  | .jar | .sync => "jar"

/-- Where the suites are loaded from, seen from the project directory. -/
def classpath : Variant → String
  | .compile => "bin"
  | .jar | .sync => "sst.jar"

/-- How the variant launches its children. -/
def launchMode : Variant → LaunchMode
  | .sync => .blocking
  | .jar | .compile => .spawnThenWait

end Variant

end SuiteDriver
