import SuiteDriver.OsError
import SuiteDriver.Path

/-!
# File systems

A tree of directories, files and symbolic links, with a current directory and what the account
database says of the home directory. A location is the list of names from the root down to a node.
Walking a path follows links, at most `mostLinks` of them; all operations are defined by the walk
and by what stands at the location where it ends.

There are no permissions: whoever asks may search every directory, read every file and write each of
them, as the administrator may. So a refusal for want of permission is no answer of these operations,
and what the program does after one is not covered.

`resolve`, `read`, `write` and the three tests are what a run asks of the operating system.
-/

namespace SuiteDriver

/-- The names from the root down to a node. -/
abbrev Location : Type := List String

/-- What can stand at a location. -/
inductive Node
  | file (content : ByteArray)
  | directory
  | link (target : String)

/-- Whether a node is a directory. -/
def Node.isDirectory : Node → Bool
  | directory => true
  | _ => false

/-- Whether a node is a file. -/
def Node.isFile : Node → Bool
  | file _ => true
  | _ => false

/-- A tree with a current directory, as an account sees it. -/
structure FileSystem where
  /-- What stands where, but for the root. -/
  nodes : List (Location × Node)
  here : Location
  /-- The home directory of the account, if the account database names one; where nothing else is
  said the account is the administrator's. -/
  accountHome : Option String := some "/root"

namespace FileSystem

/-! ## 1. Locations -/

/-- What stands at a location; the root is always a directory. -/
def lookup (fs : FileSystem) (loc : Location) : Option Node :=
  if loc = [] then some .directory else fs.nodes.lookup loc

/-- The tree with something put at a location. -/
def insert (fs : FileSystem) (loc : Location) (node : Node) : FileSystem :=
  { fs with nodes := fs.nodes.filter (·.1 ≠ loc) ++ [(loc, node)] }

/-- The tree without a location and all below it. -/
def erase (fs : FileSystem) (loc : Location) : FileSystem :=
  { fs with nodes := fs.nodes.filter fun e => !loc.isPrefixOf e.1 }

/-- A location as an absolute path. -/
def pathOf : Location → String
  | [] => "/"
  | loc => String.join (loc.map ("/" ++ ·))

/-! ## 2. Walking -/

/-- How many links a walk may follow. -/
def mostLinks : Nat := 40

/-- How many bytes a name may have. -/
def longestName : Nat := 255

/-- How many bytes a path may have. -/
def longestPath : Nat := 4095

/-- Where a walk ends. -/
inductive Spot
  | found (loc : Location)
  /-- At a free place in a directory. -/
  | free (loc : Location)
deriving DecidableEq, Repr

/-- Where a path starts. -/
def start (fs : FileSystem) (path : String) : Location :=
  if Path.isAbsolute path then [] else fs.here

/-- What a walk is for. -/
inductive Aim
  | follow
  /-- What has the path's last name: a link there is not followed. -/
  | stop
  /-- A file that is made if there is none. A name with a slash after it is no file's, so the walk
  does not even look for it. -/
  | create
  /-- What the path leads to, where every location on the way needs a path that is not too long. -/
  | resolve
deriving DecidableEq, Repr

/-- Whether a walk cannot look for a name below a location, and why. -/
def Aim.refusal? (aim : Aim) (loc : Location) (name : String) (rest : List String) :
    Option OsError :=
  if aim = .create ∧ rest = [""] then some (.code Errno.isDirectory)
  else if longestName < name.utf8ByteSize then some (.code Errno.nameTooLong)
  else if aim = .resolve ∧ longestPath < (pathOf (loc ++ [name])).utf8ByteSize then
    some (.code Errno.nameTooLong)
  else none

/-- Walks names from a directory on. At a link the walk goes on by `jump`, from the link's directory
or the root, with the names of its target in front of those that are left. -/
def walkNames (fs : FileSystem) (aim : Aim)
    (jump : Location → List String → Except OsError Spot) (loc : Location) :
    List String → Except OsError Spot
  | [] => .ok (.found loc)
  | name :: rest =>
    if name = "" ∨ name = "." then walkNames fs aim jump loc rest
    else if name = ".." then walkNames fs aim jump loc.dropLast rest
    else
      match aim.refusal? loc name rest with
      | some e => .error e
      | none =>
        match fs.lookup (loc ++ [name]) with
        | none => if rest = [] then .ok (.free (loc ++ [name])) else .error (.code Errno.noEntry)
        | some .directory => walkNames fs aim jump (loc ++ [name]) rest
        | some (.file _) =>
          if rest = [] then .ok (.found (loc ++ [name])) else .error (.code Errno.notDirectory)
        | some (.link target) =>
          if rest = [] ∧ aim = .stop then .ok (.found (loc ++ [name]))
          else jump (if Path.isAbsolute target then [] else loc) (Path.names target ++ rest)

/-- Walks names from a directory on, with so many links left to follow. -/
def walk (fs : FileSystem) (aim : Aim) : Nat → Location → List String → Except OsError Spot
  | 0 => fs.walkNames aim fun _ _ => .error (.code Errno.tooManyLinks)
  | links + 1 => fs.walkNames aim (walk fs aim links)

/-- The end of a path. -/
def spot (fs : FileSystem) (aim : Aim) (path : String) : Except OsError Spot :=
  if Path.hasNul path then .error .nulInPath
  else if path = "" then .error (.code Errno.noEntry)
  else fs.walk aim mostLinks (fs.start path) (Path.names path)

/-- The end of a path that is not too long to be handed to the system. -/
def shortSpot (fs : FileSystem) (aim : Aim) (path : String) : Except OsError Spot :=
  if !Path.hasNul path && longestPath < path.utf8ByteSize then .error (.code Errno.nameTooLong)
  else fs.spot aim path

/-- The location of what a path names. -/
def locate (fs : FileSystem) (path : String) : Except OsError Location :=
  match fs.shortSpot .follow path with
  | .ok (.found loc) => .ok loc
  | .ok (.free _) => .error (.code Errno.noEntry)
  | .error e => .error e

/-! ## 3. Questions -/

/-- The absolute path, without links, of what a path names. -/
def resolve (fs : FileSystem) (path : String) : Except OsError String :=
  match fs.spot .resolve path with
  | .ok (.found loc) => .ok (pathOf loc)
  | .ok (.free _) => .error (.code Errno.noEntry)
  | .error e => .error e

/-- What a path names, links followed. -/
def node? (fs : FileSystem) (path : String) : Option Node :=
  match fs.locate path with
  | .ok loc => fs.lookup loc
  | .error _ => none

/-- Whether a path names something. -/
def hasEntry (fs : FileSystem) (path : String) : Bool := (fs.node? path).isSome

/-- Whether a path names a directory. -/
def isDirectory (fs : FileSystem) (path : String) : Bool := (fs.node? path).any Node.isDirectory

/-- Whether a path names a file. -/
def isFile (fs : FileSystem) (path : String) : Bool := (fs.node? path).any Node.isFile

/-- The text of a file. -/
def read (fs : FileSystem) (path : String) : Except OsError String :=
  match fs.locate path with
  | .error e => .error e
  | .ok loc =>
    match fs.lookup loc with
    | some (.file content) =>
      match String.fromUTF8? content with
      | some text => .ok text
      | none => .error .notText
    | some .directory => .error (.code Errno.isDirectory)
    | _ => .error (.code Errno.noEntry)

/-! ## 4. Changes -/

/-- The tree after bytes are written to a file, which is made if there is none. -/
def writeBytes (fs : FileSystem) (path : String) (content : ByteArray) :
    Except OsError FileSystem :=
  match fs.shortSpot .create path with
  | .error e => .error e
  | .ok (.free loc) => .ok (fs.insert loc (.file content))
  | .ok (.found loc) =>
    match fs.lookup loc with
    | some (.file _) => .ok (fs.insert loc (.file content))
    | _ => .error (.code Errno.isDirectory)

/-- The tree after a text is written to a file. -/
def write (fs : FileSystem) (path text : String) : Except OsError FileSystem :=
  fs.writeBytes path text.toUTF8

/-- The tree with a directory at a path whose parent exists. -/
def makeDirectory (fs : FileSystem) (path : String) : Except OsError FileSystem :=
  match fs.spot .stop path with
  | .ok (.free loc) => .ok (fs.insert loc .directory)
  | .ok (.found _) =>
    if fs.isDirectory path then .ok fs else .error (.code Errno.alreadyThere)
  | .error e => .error e

/-- The tree with directories at each of the paths. Only at the last one it matters what stands
there already: below anything but a directory the next path leads nowhere. -/
def makeAll (fs : FileSystem) : List String → Except OsError FileSystem
  | [] => .ok fs
  | [p] => fs.makeDirectory p
  | p :: q :: ps =>
    match fs.spot .stop p with
    | .ok (.free loc) => (fs.insert loc .directory).makeAll (q :: ps)
    | .ok (.found _) => fs.makeAll (q :: ps)
    | .error e => .error e

/-- A path and the paths above it, the topmost first. -/
def lineage (path : String) : List String :=
  let segments := (Path.split path.toList).reverse.dropWhile Path.isVoid |>.reverse
  ((List.range segments.length).map fun n => Path.unsplit (segments.take (n + 1))).filter (· ≠ [])
    |>.map String.ofList

/-- The tree with a directory at a path, and at all paths above it. -/
def makeDirectories (fs : FileSystem) (path : String) : Except OsError FileSystem :=
  fs.makeAll (lineage path)

/-- The tree with a symbolic link at a path. -/
def makeLink (fs : FileSystem) (path target : String) : Except OsError FileSystem :=
  match fs.spot .stop path with
  | .ok (.free loc) => .ok (fs.insert loc (.link target))
  | .ok (.found _) => .error (.code Errno.alreadyThere)
  | .error e => .error e

/-- The tree without what a path names, and all below it; a link itself is removed. -/
def remove (fs : FileSystem) (path : String) : Except OsError FileSystem :=
  match fs.spot .stop path with
  | .ok (.found loc) => .ok (fs.erase loc)
  | .ok (.free _) => .error (.code Errno.noEntry)
  | .error e => .error e

/-- The tree with an empty file at a path, or with a directory if the path ends in a slash; a file
that is there keeps its bytes. -/
def touch (fs : FileSystem) (path : String) : Except OsError FileSystem :=
  if Path.endsInSlash path then fs.makeDirectories path
  else if fs.isFile path then .ok fs
  else fs.writeBytes path ByteArray.empty

end FileSystem

end SuiteDriver
