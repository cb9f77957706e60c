import SuiteDriver.Toml.Bare

/-!
# Keys and values as they are written

A key is a row of segments, bare or in quotes, of which there may be at most `deepest`. A value is
quoted text, a bare value, or a bracketed one; bracketed values nest to `deepest` levels, and the
reader recurs on the levels that are left. Inside brackets and braces, line ends and comments may
stand between the parts, and the last item may be followed by a comma.

`Toml/Document` reads statements with `dottedKey` and `value`.
-/

namespace SuiteDriver.Toml

/-- How many segments a key may have, and how deep bracketed values may nest. -/
def deepest : Nat := 80

/-- A thing, or a flaw if there is none. -/
def orMalformed {α : Type} : Option α → Except Flaw α
  | some a => .ok a
  | none => .error .malformed

/-! ## 1. Keys -/

/-- The name of a segment in quotes, which has to stay on its line. -/
def quotedName? (t : Quoted) : Option (List Char) := if t.several then none else t.text?

/-- One segment of a key. -/
def keySegment : Reader (Except Flaw Key) := fun s =>
  let named (name? : Option (List Char)) (rest : List Char) : Except Flaw Key × List Char :=
    ((orMalformed name?).map fun name => ⟨String.ofList name, ⟨s.length, rest.length⟩⟩, rest)
  match quoted s with
  | some (t, rest) => some (named (quotedName? t) rest)
  | none =>
    match s.takeWhile isWordChar with
    | [] => none
    | name =>
      some (named (if name.all isBareKey then some name else none) (s.dropWhile isWordChar))

/-- A segment in front of the segments after it; of two flaws the first counts. -/
def inFront (key : Except Flaw Key) (more : Except Flaw (List Key × Key)) :
    Except Flaw (List Key × Key) :=
  match key, more with
  | .ok k, .ok (path, last) => .ok (k :: path, last)
  | .ok _, .error e => .error e
  | .error e, _ => .error e

/-- Segments with points between them, at most `n` after the first: all but the last, and the
last. -/
def segments : Nat → Reader (Except Flaw (List Key × Key))
  | 0, s => (keySegment s).map fun p => (p.1.map fun key => ([], key), p.2)
  | n + 1, s =>
    match keySegment s with
    | none => none
    | some (key, r) =>
      match skipBlanks r with
      | '.' :: t => (segments n (skipBlanks t)).map fun p => (inFront key p.1, p.2)
      | _ => some (key.map fun k => ([], k), r)

/-- A key that is not too long. -/
def checkDepth (key : List Key × Key) : Except Flaw (List Key × Key) :=
  if deepest ≤ key.1.length then .error .tooDeep else .ok key

/-- A key: the path to a table, and the name in that table. -/
def dottedKey : Reader (Except Flaw (List Key × Key)) := fun s =>
  (segments s.length s).map fun p => (p.1.bind checkDepth, p.2)

/-! ## 2. Values without brackets -/

/-- A value without quotes and brackets. -/
def bareValue : Reader (Except Flaw Value) := fun s =>
  match bareText true s with
  | ([], _) => none
  | (written, rest) => some (orMalformed (bareValue? written), rest)

/-- Quoted text as a value. -/
def textValue : Reader (Except Flaw Value) := fun s =>
  (quoted s).map fun p => (orMalformed (p.1.text?.map fun t => .text (String.ofList t)), p.2)

/-! ## 3. Bracketed values -/

/-- A value with its stretch. -/
def located (r : Reader (Except Flaw Value)) : Reader (Except Flaw (Located Value)) := fun s =>
  (r.spanned s).map fun p => (p.1.2.map fun v => ⟨p.1.1, v⟩, p.2)

/-- At most `n` items up to a closing mark, with commas between them. -/
def itemsUntil {α : Type} (close : Char) (item : Reader α) : Nat → Reader (List α)
  | 0, _ => none
  | n + 1, s =>
    match skipFiller s with
    | [] => none
    | c :: r =>
      if c = close then some ([], r)
      else
        match item (c :: r) with
        | none => none
        | some (a, t) =>
          match skipFiller t with
          | [] => none
          | d :: u =>
            if d = close then some ([a], u)
            else if d = ',' then (itemsUntil close item n u).map fun p => (a :: p.1, p.2)
            else none

/-- An assignment as it is written. -/
structure Assignment where
  /-- The key: the path to a table, and the name in that table. -/
  key : List Key × Key
  value : Located Value

/-- A key and what it is set to; of two flaws the key's counts. -/
def Assignment.pair? (key : Except Flaw (List Key × Key)) (value : Except Flaw (Located Value)) :
    Except Flaw Assignment :=
  match key, value with
  | .ok k, .ok v => .ok ⟨k, v⟩
  | .ok _, .error e => .error e
  | .error e, _ => .error e

/-- A key, an equals sign and a value, with what `skip` skips between them. -/
def assignment (skip : List Char → List Char) (item : Reader (Except Flaw Value)) :
    Reader (Except Flaw Assignment) := fun s =>
  match dottedKey s with
  | none => none
  | some (key, r) =>
    match skip r with
    | '=' :: t => (located item (skip t)).map fun p => (Assignment.pair? key p.1, p.2)
    | _ => none

/-- The list that items make. -/
def arrayOf : List (Except Flaw (Located Value)) → Except Flaw (List (Located Value))
  | [] => .ok []
  | .error e :: _ => .error e
  | .ok v :: items => (arrayOf items).map (v :: ·)

/-- What one more assignment in braces makes of a table. -/
def assignInline (t : Table) (a : Except Flaw Assignment) : Except Flaw Table :=
  a.bind fun a => orMalformed (Table.assign a.key.1 a.key.2 a.value t)

/-- The table that assignments in braces make, if they agree with each other. -/
def inlineTable (parts : List (Except Flaw Assignment)) : Except Flaw Value :=
  (parts.foldlM assignInline ⟨.inline, []⟩).map Table.toValue

/-- A bracketed value whose parts `item` reads. -/
def bracketed (item : Reader (Except Flaw Value)) : Reader (Except Flaw Value)
  | [] => none
  | c :: r =>
    if c = '[' then
      (itemsUntil ']' (located item) (r.length + 1) r).map fun p =>
        ((arrayOf p.1).map (.array false), p.2)
    else if c = '\x7b' then
      (itemsUntil '\x7d' (assignment skipFiller item) (r.length + 1) r).map fun p =>
        (inlineTable p.1, p.2)
    else none

/-- A value with at most so many levels of brackets and braces. -/
def valueWithin : Nat → Reader (Except Flaw Value)
  | 0, s => (textValue s).orElse fun _ => bareValue s
  | n + 1, s =>
    (textValue s).orElse fun _ => (bracketed (valueWithin n) s).orElse fun _ => bareValue s

/-- A value. -/
def value : Reader (Except Flaw Value) := valueWithin deepest

end SuiteDriver.Toml
