import SuiteDriver.Rehearsal.Tool

/-!
# Rehearsals with scripted answers

The n-th launch gets the n-th answer of a script, whatever is launched; after the script's end every
launch ends with code zero. An answer may first change files in the project directory.

`Script.launcher` answers the launches of a run.
-/

namespace SuiteDriver.Rehearsal

/-- One answer of a script. -/
structure Response where
  /-- What is made first. -/
  touch : List String
  /-- What is removed then. -/
  remove : List String
  status : Except OsError (Option Int)

/-- The answers, in the order of the launches. -/
abbrev Script : Type := List Response

/-- The answer after the script's end. -/
def Response.standard : Response := ⟨[], [], .ok (some 0)⟩

/-- Changes files one path after the other, up to the first failure. -/
def changeAll (change : FileSystem → String → Except OsError FileSystem) (dir : String)
    (fs : FileSystem) : List String → FileSystem × Option OsError
  | [] => (fs, none)
  | p :: ps =>
    match change fs (Path.join dir p) with
    | .ok next => changeAll change dir next ps
    | .error e => (fs, some e)

/-- What an answer does to the files, and the status in the end. -/
def Response.answer (r : Response) (dir : String) (fs : FileSystem) : Answer :=
  match changeAll FileSystem.touch dir fs r.touch with
  | (made, some e) => ⟨.error e, "", made, Duration.zero⟩
  | (made, none) =>
    match changeAll FileSystem.remove dir made r.remove with
    | (left, some e) => ⟨.error e, "", left, Duration.zero⟩
    | (left, none) => ⟨r.status, "", left, Duration.zero⟩

/-- What answers launches with a script. -/
def Script.launcher (script : Script) : Launcher := fun earlier fs l =>
  ((script[earlier.length]?).getD Response.standard).answer l.directory fs

end SuiteDriver.Rehearsal
