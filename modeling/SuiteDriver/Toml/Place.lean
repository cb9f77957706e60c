import SuiteDriver.Toml.Reader

/-!
# Where a stretch of text stands, for a reader

Line and column count from one. The column counts characters; the marks under the quoted line stand
for bytes of the stretch, and end with the line.

`Config` reports every refused value with a `Place`.
-/

namespace SuiteDriver.Toml

/-- A stretch of a text as a report shows it. -/
structure Place where
  /-- The number of the line in which it starts. -/
  line : Nat
  /-- The number of the character, in that line, at which it starts. -/
  column : Nat
  quoted : List Char
  marks : Nat
deriving DecidableEq, Repr

/-- How many bytes characters take. -/
def byteCount (s : List Char) : Nat := s.foldr (fun c n => c.utf8Size + n) 0

/-- What stands after the last line feed. -/
def lastLine (s : List Char) : List Char := (s.reverse.takeWhile (· ≠ '\n')).reverse

/-- What stands before the first line feed. -/
def firstLine (s : List Char) : List Char := s.takeWhile (· ≠ '\n')

namespace Place

/-- The place of a stretch of `source`. -/
def ofSpan (source : List Char) (span : Span) : Place :=
  let start := source.length - span.start
  let before := source.take start
  let after := source.drop start
  let offset := (lastLine before).length
  let quoted := lastLine before ++ firstLine after
  { line := before.count '\n' + 1
    column := offset + 1
    quoted := quoted
    marks := max 1 (min (byteCount (after.take (span.start - span.stop)))
      (byteCount quoted - offset)) }

/-- The report of `message` at a place. -/
def report (p : Place) (message : String) : String :=
  let number := toString p.line
  let gutter := String.ofList (List.replicate (number.length + 1) ' ')
  let indent := String.ofList (List.replicate p.column ' ')
  let marks := String.ofList (List.replicate p.marks '^')
  "TOML parse error at line " ++ number ++ ", column " ++ toString p.column ++ "\n" ++
    gutter ++ "|\n" ++
    number ++ " | " ++ String.ofList p.quoted ++ "\n" ++
    gutter ++ "|" ++ indent ++ marks ++ "\n" ++
    message ++ "\n"

end Place

end SuiteDriver.Toml
