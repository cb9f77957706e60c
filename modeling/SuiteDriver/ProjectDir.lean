import SuiteDriver.Expand
import SuiteDriver.Fault
import SuiteDriver.FileSystem

/-!
# Project directories

A project directory is written with variables and a tilde, and seen from a base directory. It is
resolved to the absolute path, without links, of a directory that exists.

`ProjectDir.resolve` gives every root of a run.
-/

namespace SuiteDriver.ProjectDir

/-- The directory that `raw`, seen from `base`, names. -/
def resolve (env : Environment) (fs : FileSystem) (language : Language) (raw base : String) :
    Except Fault String :=
  match Expand.full env fs.accountHome raw with
  | .error name => .error ⟨[(language, .projectDirExpandFailed raw)], .unsetVariable name⟩
  | .ok expanded =>
    let path := Path.join base expanded
    match fs.resolve path with
    | .error e => .error ⟨[(language, .projectDirNotFound path)], .system e⟩
    | .ok root =>
      if fs.isDirectory root then .ok root
      else .error ⟨[(language, .projectDirNotFound root)], .stated⟩

end SuiteDriver.ProjectDir
