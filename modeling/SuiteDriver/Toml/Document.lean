import SuiteDriver.Toml.Item

/-!
# Documents

A document is a list of statements, each on lines of its own: a header that opens a table, a header
that adds a table to a row of tables, or an assignment. The table of a document is what the
statements build one after the other, starting from an empty one; a document whose statements
contradict each other has none.

`readEntries` is what a configuration is decoded from.
-/

namespace SuiteDriver.Toml

/-! ## 1. Statements -/

/-- One statement of a document. -/
inductive Statement
  | header (path : List Key) (key : Key) (span : Span)
  /-- A header that adds a table to a row of tables. -/
  | rowHeader (path : List Key) (key : Key) (span : Span)
  | assignment (path : List Key) (key : Key) (value : Located Value)

namespace Statement

/-- A key between brackets, with what follows the first closing one. -/
def headerKey : Reader (Except Flaw (List Key × Key)) := fun s =>
  match dottedKey (skipBlanks s) with
  | none => none
  | some (key, r) =>
    match skipBlanks r with
    | ']' :: t => some (key, t)
    | _ => none

/-- Reads one statement, up to the end of its last item. -/
def read : Reader (Except Flaw Statement) := fun s =>
  match s with
  | '[' :: '[' :: r =>
    match headerKey r with
    | some (key, ']' :: t) =>
      some (key.map fun k => .rowHeader k.1 k.2 ⟨s.length, t.length⟩, t)
    | _ => none
  | '[' :: r =>
    (headerKey r).map fun p => (p.1.map fun k => .header k.1 k.2 ⟨s.length, p.2.length⟩, p.2)
  | _ =>
    (Toml.assignment skipBlanks Toml.value s).map fun p =>
      (p.1.map fun a => .assignment a.key.1 a.key.2 a.value, p.2)

end Statement

/-- The statements of a text, at most `n`. -/
def statementsWithin : Nat → List Char → Option (List (Except Flaw Statement))
  | 0, _ => none
  | n + 1, s =>
    match skipFiller s with
    | [] => some []
    | t =>
      match Statement.read t with
      | none => none
      | some (x, r) =>
        match finishLine? r with
        | none => none
        | some u => (statementsWithin n u).map (x :: ·)

/-- The mark that may stand in front of a text and says nothing. -/
def byteOrderMark : Char := '\ufeff'

/-- The statements of a text; nothing when a part is not in its place. -/
def statements? (s : List Char) : Option (List (Except Flaw Statement)) :=
  match s with
  | c :: r =>
    if c = byteOrderMark then statementsWithin (r.length + 1) r
    else statementsWithin (s.length + 1) s
  | [] => some []

/-! ## 2. What statements build -/

/-- A document under construction. -/
structure Draft where
  /-- The table that assignments go to, by its path. -/
  here : List Key
  root : Table
  /-- A table that a header adds to a row of tables where something else stands. It takes
  assignments like any other; that it has no place is found when it ends. -/
  misplaced : Option Table

namespace Draft

/-- Nothing written yet. -/
def empty : Draft := ⟨[], ⟨.header, []⟩, none⟩

/-- A header ends the table that assignments went to. -/
def endTable (d : Draft) : Except Flaw Table :=
  match d.misplaced with
  | some _ => .error .malformed
  | none => .ok d.root

/-- A header opens a table. -/
def openHeader (root : Table) (path : List Key) (key : Key) (span : Span) : Except Flaw Draft :=
  match root.under .header (Table.openTable key span) path with
  | some t => .ok ⟨path ++ [key], t, none⟩
  | none => .error .malformed

/-- A header adds a table to a row of tables. -/
def openRow (root : Table) (path : List Key) (key : Key) (span : Span) : Except Flaw Draft :=
  match root.under .header (Table.pushTable key span) path with
  | some t => .ok ⟨path ++ [key], t, none⟩
  | none =>
    match root.under .header some path with
    | some t => .ok ⟨path ++ [key], t, some ⟨.header, []⟩⟩
    | none => .error .malformed

/-- An assignment goes to the table that was opened last. -/
def assign (d : Draft) (path : List Key) (key : Key) (v : Located Value) : Except Flaw Draft :=
  match d.misplaced with
  | some t => (orMalformed (Table.assign path key v t)).map fun u => { d with misplaced := some u }
  | none =>
    (orMalformed (d.root.under .header (Table.assign path key v) d.here)).map fun u =>
      { d with root := u }

/-- What one more statement makes of the document. -/
def step (d : Draft) : Statement → Except Flaw Draft
  | .header path key span => d.endTable.bind fun root => openHeader root path key span
  | .rowHeader path key span => d.endTable.bind fun root => openRow root path key span
  | .assignment path key v => d.assign path key v

end Draft

/-- The entries of the table that statements build one after the other, or the first flaw. -/
def build (xs : List (Except Flaw Statement)) : Except Flaw Entries :=
  match xs.foldlM (fun d x => x.bind (Draft.step d)) Draft.empty with
  | .ok d => d.endTable.map Table.entries
  | .error e => .error e

/-- The entries of the table that a text writes, or what is wrong with it. -/
def readEntries (s : List Char) : Except Flaw Entries :=
  match statements? s with
  | some xs => build xs
  | none => .error .malformed

end SuiteDriver.Toml
