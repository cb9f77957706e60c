import SuiteDriver.Text.Split

/-!
# Paths

A path is a text with slashes between its segments. Empty segments, and points that are not the
first segment, stand for nothing. Paths are joined and cut as texts, so a point or a doubled slash
that was written stays visible.

`FileSystem` walks the segments of a path.
-/

namespace SuiteDriver.Path

/-- The segments of a path: what stands between its slashes, one more than there are slashes. -/
def split (path : List Char) : List (List Char) := Text.splitAt '/' path

/-- Segments with slashes between them. -/
def unsplit (segments : List (List Char)) : List Char := Text.joinWith '/' segments

/-- Whether a path starts at the root. -/
def isAbsolute (path : String) : Bool := path.toList.head? == some '/'

/-- Whether a path ends in a slash. -/
def endsInSlash (path : String) : Bool := path.toList.getLast? == some '/'

/-- Whether a path holds a NUL. -/
def hasNul (path : String) : Bool := path.toList.contains '\x00'

/-- `path` seen from `base`: an absolute path replaces the base, and no slash is doubled. -/
def join (base path : String) : String :=
  if isAbsolute path then path
  else if base = "" || endsInSlash base then base ++ path
  else base ++ "/" ++ path

/-- Whether a segment after the first stands for nothing. -/
def isVoid (segment : List Char) : Bool := segment = [] || segment = ['.']

/-- The segments without void ones at the end. -/
def trimVoid (segments : List (List Char)) : List (List Char) :=
  (segments.reverse.dropWhile isVoid).reverse

/-- The segments but for the last that stands for something, and for void ones before it; nothing
if all are void. -/
def dropLast? (segments : List (List Char)) : Option (List (List Char)) :=
  match trimVoid segments with
  | [] => none
  | s :: ss => some (trimVoid (s :: ss).dropLast)

/-- The directory part of a path: a bare name has the empty path, the root and the empty path have
none. -/
def parent? (path : String) : Option String :=
  match split path.toList with
  | [] => none
  | first :: rest =>
    match dropLast? rest with
    | some [] => if first = [] then some "/" else some (String.ofList first)
    | some (s :: ss) => some (String.ofList (unsplit (first :: s :: ss)))
    | none => if first = [] then none else some ""

/-- The names that a path goes through: its segments but the empty ones. A slash at the end, which
asks for a directory, leaves an empty name there. -/
def names (path : String) : List String :=
  (((split path.toList).filter (· ≠ [])) ++ (if endsInSlash path then [[]] else [])).map
    String.ofList

end SuiteDriver.Path
