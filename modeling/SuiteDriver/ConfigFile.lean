import SuiteDriver.Fault
import SuiteDriver.FileSystem

/-!
# Configuration files

Where a configuration is looked for, how it is read, and the one that is written for a start.

`ConfigFile.discover` is the only way by which a run gets a configuration, and `ConfigFile.write`
the only one by which a file is written.
-/

namespace SuiteDriver.ConfigFile

/-- The name that is looked up in the project directory. -/
def standardName : String := "TestDriver.toml"

/-- The configuration that is written for a start; it says what no configuration says. -/
def standardText : String :=
  "# Configuration for sst-test-driver.\n" ++
  "\n" ++
  "# Output language: \"en\" or \"zh-CN\". Defaults to the system locale.\n" ++
  "# language = \"en\"\n" ++
  "\n" ++
  "# Which variant to run:\n" ++
  "#   \"jar\"     - make jar,  -cp sst.jar, spawn then wait\n" ++
  "#   \"compile\" - make java, -cp bin,     spawn then wait\n" ++
  "#   \"sync\"    - make jar,  -cp sst.jar, blocking launches\n" ++
  "variant = \"jar\"\n" ++
  "\n" ++
  "# Directory in which make and java are launched, relative to this file.\n" ++
  "# project_dir = \".\"\n"

/-- The configuration in a file. -/
def load (fs : FileSystem) (language : Language) (path : String) : Except Fault Config :=
  match fs.read path with
  | .error e => .error ⟨[(language, .configReadFailed path)], .system e⟩
  | .ok text =>
    match Config.parse text with
    | .error e => .error ⟨[(language, .configParseFailed path)], .config e⟩
    | .ok c => .ok c

/-- The configuration of a run, with the path it was read from: the one asked for, else the standard
one of the directory if it is a file, else none. -/
def discover (fs : FileSystem) (language : Language) (asked : Option String) (dir : String) :
    Except Fault (Config × Option String) :=
  match asked with
  | some path => (load fs language path).map fun c => (c, some path)
  | none =>
    let path := Path.join dir standardName
    if fs.isFile path then (load fs language path).map fun c => (c, some path)
    else .ok (Config.empty, none)

/-- Writes a configuration; whether it was written, and the files after it. What is there is left
alone unless `force` is set. -/
def write (fs : FileSystem) (language : Language) (path text : String) (force : Bool) :
    Except Fault (Bool × FileSystem) :=
  if fs.hasEntry path && !force then .ok (false, fs)
  else
    match fs.write path text with
    | .ok after => .ok (true, after)
    | .error e => .error ⟨[(language, .configWriteFailed path)], .system e⟩

end SuiteDriver.ConfigFile
