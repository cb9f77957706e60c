import SuiteDriver.Program
import SuiteDriver.Text.Bytes

/-!
# The outermost layer

Takes the words, the environment and the files of the process, hands them to `Program.run`, and does
what comes of it: writes the changed files, the two outputs and the exit status. It decides nothing.

The files are those below the current directory, to a bounded depth, and the directories above it. A
link is taken for what it leads to. This layer has no means to start a process, so every launch is
refused as a function that is not there; plans, configurations and help need none.
-/

namespace SuiteDriver.Outer

/-- How deep the files below the current directory are looked at. -/
def depth : Nat := 8

/-- The environment, as the system shows it: entries that each end in a zero byte. -/
def environment : IO Environment := do
  let text := Text.ofBytes (← IO.FS.readBinFile "/proc/self/environ")
  return (text.splitOn "\x00").filterMap fun entry =>
    match entry.splitOn "=" with
    | name :: value :: more => some (name, "=".intercalate (value :: more))
    | _ => none

/-- The location that an absolute path names. -/
def locationOf (path : String) : Location := Path.names path

/-- The directories above and at a location. -/
def ancestors (loc : Location) : List (Location × Node) :=
  (List.range loc.length).map fun n => (loc.take (n + 1), .directory)

/-- What stands at and below an entry of a directory; what cannot be read is left out. -/
def below (loc : Location) : Nat → IO (List (Location × Node))
  | 0 => return []
  | n + 1 => do
    let path ← IO.FS.realPath (FileSystem.pathOf loc)
    let entries ← try path.readDir catch _ => pure #[]
    let mut found : List (Location × Node) := []
    for e in entries do
      let here := loc ++ [e.fileName]
      let isDirectory ← e.path.isDir
      if isDirectory then
        found := found ++ (here, .directory) :: (← below here n)
      else
        try
          found := found ++ [(here, .file (← IO.FS.readBinFile e.path))]
        catch _ => pure ()
    return found

/-- The home directory that the account database names for the account of the process. -/
def accountHome : IO (Option String) := do
  let process := Text.ofBytes (← IO.FS.readBinFile "/proc/self/status")
  let accounts := Text.ofBytes
    (← try IO.FS.readBinFile "/etc/passwd" catch _ => pure ByteArray.empty)
  let own? := (process.splitOn "\n").findSome? fun line =>
    match line.splitOn "\t" with
    | "Uid:" :: number :: _ => some number
    | _ => none
  return own?.bind fun own => (accounts.splitOn "\n").findSome? fun line =>
    match line.splitOn ":" with
    | [_, _, number, _, _, home, _] => if number = own then some home else none
    | _ => none

/-- The files as the process finds them. -/
def filesNow : IO FileSystem := do
  let loc := locationOf (← IO.currentDir).toString
  return ⟨ancestors loc ++ (← below loc depth), loc, ← accountHome⟩

/-- The answer to every launch. -/
def refuse : Launcher := fun _ fs _ => ⟨.error (.code 38), "", fs, Duration.zero⟩

/-- Whether a file had these bytes. -/
def hadBytes (before : FileSystem) (loc : Location) (content : ByteArray) : Bool :=
  match before.lookup loc with
  | some (.file old) => old.toList == content.toList
  | _ => false

/-- Writes the files that are not as they were. -/
def store (before after : FileSystem) : IO Unit :=
  for (loc, node) in after.nodes do
    match node with
    | .file content =>
      unless hadBytes before loc content do
        IO.FS.writeBinFile (FileSystem.pathOf loc) content
    | _ => pure ()

end SuiteDriver.Outer

open SuiteDriver in
/-- Runs the program on the words after its name. -/
def main (words : List String) : IO UInt32 := do
  let files ← Outer.filesNow
  let x := Program.run ⟨← Outer.environment, files, Outer.refuse⟩ words
  Outer.store files x.files
  (← IO.getStdout).putStr x.stdout
  let stderr ← IO.getStderr
  for r in x.records do
    stderr.putStrLn r.line
  stderr.putStr x.complaint
  return x.status.toUInt32
