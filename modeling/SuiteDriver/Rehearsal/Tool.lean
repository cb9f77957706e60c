import SuiteDriver.Run

/-!
# Rehearsals with scripted tools

A rehearsal answers launches without any process: tools do what their rules say, to the last
argument that they are given. Finding the program follows the rules of the operating system: the
working directory comes first, a name without a slash is looked up in the directories of a search
path, and any other program is a path from the working directory. Of all files only the tools may be
run.

`Toolbox.launcher` answers the launches of a run.
-/

namespace SuiteDriver.Rehearsal

/-! ## 1. Tools -/

/-- What a tool does when it is given a certain last argument. -/
structure Rule where
  /-- The last argument; without one, any. -/
  last : Option String
  print : Option String
  touch : List String
  remove : List String
  killed : Bool
  code : Int
deriving DecidableEq, Repr, Inhabited

/-- A tool with its rules, of which the first that fits is followed. -/
structure Tool where
  name : String
  executable : Bool
  rules : List Rule
deriving DecidableEq, Repr, Inhabited

/-- Tools in one directory, and where programs are looked for. -/
structure Toolbox where
  /-- The directory in which each tool is a file. -/
  place : Location
  /-- The directories in which programs are looked for, with colons between them. -/
  searchPath : Option String
  /-- The tools, of which the first with a name counts. -/
  tools : List Tool

/-- The files after a change, or as they were if it failed. -/
def orUnchanged (fs : FileSystem) : Except OsError FileSystem → FileSystem
  | .ok next => next
  | .error _ => fs

/-- The files after a tool made and removed things, seen from its working directory. -/
def Rule.apply (r : Rule) (dir : Location) (fs : FileSystem) : FileSystem :=
  let made := r.touch.foldl (fun f p => orUnchanged f (f.touch p)) { fs with here := dir }
  let left := r.remove.foldl (fun f p => orUnchanged f (f.remove p)) made
  { left with here := fs.here }

/-- The rule that does nothing. -/
def Rule.idle : Rule := ⟨none, none, [], [], false, 0⟩

/-- The rule that a tool follows. -/
def Tool.rule (t : Tool) (args : List String) : Rule :=
  let last := args.getLast?.getD ""
  (t.rules.find? fun r => r.last = none ∨ r.last = some last).getD Rule.idle

/-- How a rule ends: without a code after a signal, else with its code in one byte. -/
def Rule.status (r : Rule) : Option Int := if r.killed then none else some (r.code.emod 256)

/-! ## 2. Launching -/

/-- How many bytes an argument may have. -/
def longestArgument : Nat := 131071

/-- The working directory that a path names, or why it cannot be one. -/
def workingDirectory (fs : FileSystem) (dir : String) : Except OsError Location :=
  if Path.hasNul dir then .error .nulInCommand
  else
    match fs.locate dir with
    | .error e => .error e
    | .ok loc =>
      if (fs.lookup loc).any Node.isDirectory then .ok loc else .error (.code Errno.notDirectory)

namespace Toolbox

/-- The tool that a path names, or why what it names may not be run. -/
def runnable (box : Toolbox) (fs : FileSystem) (path : String) : Except OsError Tool :=
  match fs.locate path with
  | .error e => .error e
  | .ok loc =>
    match box.tools.find? fun t => loc = box.place ++ [t.name] with
    | some t => if t.executable then .ok t else .error (.code Errno.denied)
    | none => .error (.code Errno.denied)

/-- Whether a search goes on after an error. -/
def isPassedOver (e : OsError) : Bool :=
  e = .code Errno.denied || e = .code Errno.noEntry || e = .code Errno.notDirectory

/-- Looks for a program in one directory after the other. That one was found that may not be run
counts for more than that none was found; `failure` is what is known so far. -/
def search (box : Toolbox) (fs : FileSystem) (program : String) (failure : OsError) :
    List String → Except OsError Tool
  | [] => .error failure
  | d :: ds =>
    match box.runnable fs (Path.join d program) with
    | .ok t => .ok t
    | .error e =>
      if isPassedOver e then
        box.search fs program (if failure = .code Errno.denied then failure else e) ds
      else .error e

/-- The directories in which programs are looked for where nothing is said. -/
def standardPath : String := "/bin:/usr/bin"

/-- The directories in which programs are looked for; an empty one is the working directory. -/
def directories (box : Toolbox) : List String :=
  (Text.splitAt ':' (box.searchPath.getD standardPath).toList).map String.ofList

/-- The tool that a program names, seen from the current directory, or why there is none. -/
def find (box : Toolbox) (fs : FileSystem) (program : String) : Except OsError Tool :=
  if program = "" then .error (.code Errno.noEntry)
  else if '/' ∈ program.toList then box.runnable fs program
  else if FileSystem.longestName < program.utf8ByteSize then .error (.code Errno.nameTooLong)
  else box.search fs program (.code Errno.noEntry) box.directories

/-- What comes of a command in a directory. -/
def answer (box : Toolbox) (fs : FileSystem) (c : Command) (dir : String) : Answer :=
  let refused (e : OsError) : Answer := ⟨.error e, "", fs, Duration.zero⟩
  if c.hasNul then refused .nulInCommand
  else
    match workingDirectory fs dir with
    | .error e => refused e
    | .ok loc =>
      match box.find { fs with here := loc } c.program with
      | .error e => refused e
      | .ok t =>
        if c.args.any fun a => longestArgument < a.utf8ByteSize then
          refused (.code Errno.argumentTooLong)
        else
          let r := t.rule c.args
          ⟨.ok r.status, (r.print.map (· ++ "\n")).getD "", r.apply loc fs, Duration.zero⟩

/-- What answers launches with a toolbox. -/
def launcher (box : Toolbox) : Launcher := fun _ fs l =>
  box.answer fs l.step.command l.directory

end Toolbox

/-! ## 3. Calls -/

/-- The record of a call: the tool's name, a blank, and the arguments. -/
def callText (c : Command) : String := c.program ++ " " ++ " ".intercalate c.args

/-- The calls among events: the launches that were not refused. -/
def calls : List Event → List String
  | .launched l :: .answered (.ok _) _ :: es => callText l.step.command :: calls es
  | _ :: es => calls es
  | [] => []

end SuiteDriver.Rehearsal
