import SuiteDriver.Toml.Number

/-!
# Values, and tables that grow

A document is one table that grows statement by statement. Which statement may reach into a table,
or open it once more, depends on how the table came to be (`Origin`). Every value keeps the stretch
of text that stands for it; a table without a stretch of its own takes the segment of the longer key
that made it.

`Toml/Document` builds tables with `Table.assign`, `Table.openTable` and `Table.pushTable`.
-/

namespace SuiteDriver.Toml

/-! ## 1. Values -/

/-- One segment of a key. -/
structure Key where
  name : String
  /-- Where it is written, with its quotes. -/
  span : Span
deriving DecidableEq, Repr

/-- A thing with the stretch of text that stands for it. -/
structure Located (α : Type) where
  span : Span
  value : α

/-- How a table came to be. -/
inductive Origin
  /-- By a header of its own, or as the whole document. -/
  | header
  /-- As a part of a longer header. -/
  | implied
  /-- As a part of a longer key of an assignment. -/
  | dotted
  | inline
deriving DecidableEq, Repr

/-- What a key may be set to. -/
inductive Value
  | text (s : String)
  /-- A whole number of any size; nothing if it goes on with characters that are no digits. -/
  | integer (n : Option Int)
  | float (x : FloatValue)
  | boolean (b : Bool)
  /-- A date, a time, or both. -/
  | moment
  /-- A list of values, written in brackets or as a row of tables with headers of their own. -/
  | array (ofTables : Bool) (items : List (Located Value))
  | table (origin : Origin) (entries : List (Key × Located Value))

/-- The entries of a table, in the order of their first mention. -/
abbrev Entries : Type := List (Key × Located Value)

/-! ## 2. Entries -/

namespace Entries

/-- The value under a name. -/
def find? (name : String) : Entries → Option (Located Value)
  | [] => none
  | (k, v) :: es => if k.name = name then some v else find? name es

/-- Replaces the key and the value under the name of `key`. -/
def replace (key : Key) (new : Located Value) : Entries → Entries
  | [] => []
  | (k, v) :: es => if k.name = key.name then (key, new) :: es else (k, v) :: replace key new es

/-- Changes the value under a name and keeps its key. -/
def modify (name : String) (new : Located Value) : Entries → Entries
  | [] => []
  | (k, v) :: es => if k.name = name then (k, new) :: es else (k, v) :: modify name new es

end Entries

/-! ## 3. Tables -/

/-- A table under construction. -/
structure Table where
  origin : Origin
  entries : Entries

/-- What a longer key belongs to. -/
inductive Route
  | header
  | dotted
deriving DecidableEq, Repr

namespace Route

/-- How a table that the route makes comes to be. -/
def origin : Route → Origin
  | .header => .implied
  | .dotted => .dotted

/-- Whether the route may pass through a table: a header through all but those in braces, an
assignment only through tables that have no header yet. -/
def enters : Route → Origin → Bool
  | _, .inline => false
  | .header, _ => true
  | .dotted, .header => false
  | .dotted, _ => true

end Route

namespace Table

/-- The table as a value. -/
def toValue (t : Table) : Value := .table t.origin t.entries

/-- Adds an entry at the end. -/
def add (t : Table) (key : Key) (v : Located Value) : Table :=
  { t with entries := t.entries ++ [(key, v)] }

/-- Changes the table at the end of a path by `f`. The path makes the tables that are missing, and
passes through the last table of a row of tables. -/
def under (route : Route) (f : Table → Option Table) : List Key → Table → Option Table
  | [], t => f t
  | k :: path, t =>
    match t.entries.find? k.name with
    | none => (under route f path ⟨route.origin, []⟩).map fun u => t.add k ⟨k.span, u.toValue⟩
    | some ⟨span, .table origin entries⟩ =>
      if route.enters origin then
        (under route f path ⟨origin, entries⟩).map fun u =>
          { t with entries := t.entries.modify k.name ⟨span, u.toValue⟩ }
      else none
    | some ⟨span, .array true items⟩ =>
      match items.getLast? with
      | some ⟨at_, .table origin entries⟩ =>
        (under route f path ⟨origin, entries⟩).map fun u =>
          { t with
            entries :=
              t.entries.modify k.name ⟨span, .array true (items.dropLast ++ [⟨at_, u.toValue⟩])⟩ }
      | _ => none
    | some _ => none

/-- Adds an entry under a name that is still free. -/
def addNew? (key : Key) (v : Located Value) (t : Table) : Option Table :=
  match t.entries.find? key.name with
  | none => some (t.add key v)
  | some _ => none

/-- Sets a key, reached through `path`, to a value. A longer key may only add to tables that longer
keys made. -/
def assign (path : List Key) (key : Key) (v : Located Value) (t : Table) : Option Table :=
  under .dotted
    (fun u => if (u.origin = .dotted) ↔ (path ≠ []) then u.addNew? key v else none) path t

/-- Opens the table that a header names: a new one, or one that longer headers implied so far. -/
def openTable (key : Key) (header : Span) (t : Table) : Option Table :=
  match t.entries.find? key.name with
  | none => some (t.add key ⟨header, .table .header []⟩)
  | some ⟨_, .table .implied entries⟩ =>
    some { t with entries := t.entries.replace key ⟨header, .table .header entries⟩ }
  | some _ => none

/-- Adds a table to the row of tables that a header names. -/
def pushTable (key : Key) (header : Span) (t : Table) : Option Table :=
  match t.entries.find? key.name with
  | none => some (t.add key ⟨header, .array true [⟨header, .table .header []⟩]⟩)
  | some ⟨span, .array true items⟩ =>
    some { t with
      entries :=
        t.entries.modify key.name
          ⟨span, .array true (items ++ [⟨header, .table .header []⟩])⟩ }
  | some _ => none

end Table

end SuiteDriver.Toml
