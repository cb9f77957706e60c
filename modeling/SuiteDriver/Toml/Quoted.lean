import SuiteDriver.Toml.Reader

/-!
# Quoted text

The four ways to write text in quotes: with or without escapes, on one line or on several. A quoted
text is first cut out of what stands around it, up to its closing mark or, if there is none, up to
where it has to end; then the text that it stands for is found. Every step is one walk over the
characters that carries what it is in the middle of (`Closing`, `Escape`, `Fold`), so every function
here recurs on the text itself.

`quoted` cuts, and `Quoted.text?` finds the text.
-/

namespace SuiteDriver.Toml

/-- The mark around text with escapes. -/
def doubleQuote : Char := '\x22'

/-- The mark around text without escapes. -/
def singleQuote : Char := '\x27'

/-- The character that starts an escape. -/
def backslash : Char := '\x5c'

/-! ## 1. Escapes -/

/-- Escapes of one letter, with the character each stands for. -/
def letterEscape? (c : Char) : Option Char :=
  if c = 'b' then some '\x08'
  else if c = 't' then some '\t'
  else if c = 'n' then some '\n'
  else if c = 'f' then some '\x0c'
  else if c = 'r' then some '\r'
  else if c = 'e' then some '\x1b'
  else if c = doubleQuote then some doubleQuote
  else if c = backslash then some backslash
  else none

/-- Escapes by number, with how many hexadecimal digits follow. -/
def numericEscape? (c : Char) : Option Nat :=
  if c = 'x' then some 2
  else if c = 'u' then some 4
  else if c = 'U' then some 8
  else none

/-- The value of a hexadecimal digit. -/
def hexDigit? (c : Char) : Option Nat :=
  if c.isDigit then some (c.toNat - '0'.toNat)
  else if 'a' ≤ c ∧ c ≤ 'f' then some (c.toNat - 'a'.toNat + 10)
  else if 'A' ≤ c ∧ c ≤ 'F' then some (c.toNat - 'A'.toNat + 10)
  else none

/-- The character with this number, if there is one. -/
def charOfNumber? (n : Nat) : Option Char :=
  if n.isValidChar then some (Char.ofNat n) else none

/-- What a walk over escaped text is in the middle of. -/
inductive Escape
  | outside
  /-- Just after a backslash. -/
  | letter
  /-- In a number: digits still to come, and the value so far. -/
  | number (left value : Nat)
deriving DecidableEq, Repr

/-! ## 2. Cutting -/

/-- Puts characters in front of the content that a cut still finds. -/
def prepend (front : List Char) (p : Option (List Char) × List Char) :
    Option (List Char) × List Char :=
  (p.1.map (front ++ ·), p.2)

/-- The content up to the closing mark `q`, nothing if the line ends first, and what follows. With
`escapes`, a mark or a backslash just after a backslash is part of the content; `escaped` says
whether such a backslash stands before. -/
def untilMark (q : Char) (escapes escaped : Bool) : List Char → Option (List Char) × List Char
  | [] => (none, [])
  | c :: r =>
    if c = '\n' then (none, c :: r)
    else if escaped ∧ (c = q ∨ c = backslash) then prepend [c] (untilMark q escapes false r)
    else if c = q then (some [], r)
    else prepend [c] (untilMark q escapes (escapes && c = backslash) r)

/-- What a cut of text on several lines is in the middle of. -/
inductive Closing
  /-- A run of closing marks, of this many so far. -/
  | run (n : Nat)
  /-- Just after a backslash that keeps the next mark in the content. -/
  | escaped
deriving DecidableEq, Repr

/-- The content up to three closing marks `q`, nothing if the text ends first, and what follows. A
run of up to five marks closes, with its first two in the content. -/
def untilMarks (q : Char) (escapes : Bool) : Closing → List Char → Option (List Char) × List Char
  | .run n, [] => if 3 ≤ n then (some (List.replicate (n - 3) q), []) else (none, [])
  | .escaped, [] => (none, [])
  | .escaped, c :: r => prepend [c] (untilMarks q escapes (.run 0) r)
  | .run n, c :: r =>
    if c = q then
      if n = 4 then (some [q, q], r) else untilMarks q escapes (.run (n + 1)) r
    else if 3 ≤ n then (some (List.replicate (n - 3) q), c :: r)
    else
      prepend (List.replicate n q ++ [c])
        (untilMarks q escapes (if escapes && c = backslash then .escaped else .run 0) r)

/-- A quoted text as it was cut. -/
structure Quoted where
  several : Bool
  escapes : Bool
  /-- What stands between its marks, if there is a closing one. -/
  content : Option (List Char)
deriving DecidableEq, Repr

/-- Whether a character starts quoted text. -/
def isMark (c : Char) : Bool := c == doubleQuote || c == singleQuote

/-- Cuts text in quotes, on one line or, between three marks, on several. -/
def quoted : Reader Quoted
  | a :: b :: c :: r =>
    if !isMark a then none
    else if a = b ∧ b = c then
      let p := untilMarks a (a = doubleQuote) (.run 0) r
      some (⟨true, a = doubleQuote, p.1⟩, p.2)
    else
      let p := untilMark a (a = doubleQuote) false (b :: c :: r)
      some (⟨false, a = doubleQuote, p.1⟩, p.2)
  | a :: r =>
    if !isMark a then none
    else
      let p := untilMark a (a = doubleQuote) false r
      some (⟨false, a = doubleQuote, p.1⟩, p.2)
  | [] => none

/-! ## 3. Text on one line -/

/-- The text of a content with escapes. -/
def escapedLine : Escape → List Char → Option (List Char)
  | .outside, [] => some []
  | _, [] => none
  | .outside, c :: r =>
    if c = backslash then escapedLine .letter r
    else if isPrintable c then (escapedLine .outside r).map (c :: ·)
    else none
  | .letter, c :: r =>
    match letterEscape? c with
    | some d => (escapedLine .outside r).map (d :: ·)
    | none =>
      match numericEscape? c with
      | some n => escapedLine (.number n 0) r
      | none => none
  | .number left value, c :: r =>
    match hexDigit? c with
    | none => none
    | some d =>
      if left ≤ 1 then
        match charOfNumber? (16 * value + d) with
        | some e => (escapedLine .outside r).map (e :: ·)
        | none => none
      else escapedLine (.number (left - 1) (16 * value + d)) r

/-- The text of a content without escapes: itself, if all of it may stand there. -/
def literalLine (s : List Char) : Option (List Char) := if s.all isPrintable then some s else none

/-! ## 4. Text on several lines -/

/-- What a walk over text on several lines is in the middle of. -/
inductive Fold
  | outside
  | escape (e : Escape)
  /-- The blanks after a backslash at the end of a line, before or after that line's end. -/
  | skipping (pastEnd : Bool)
  /-- A carriage return, kept, whose line feed has to come next. -/
  | carriage
  /-- A carriage return among skipped blanks, whose line feed has to come next. -/
  | skippedCarriage
deriving DecidableEq, Repr

/-- The text of a content on several lines. With `escapes`, a backslash starts an escape or folds a
line end away. -/
def severalLines (escapes : Bool) : Fold → List Char → Option (List Char)
  | .outside, [] | .skipping true, [] => some []
  | _, [] => none
  | .outside, c :: r =>
    if escapes && c = backslash then severalLines escapes (.escape .letter) r
    else if c = '\r' then (severalLines escapes .carriage r).map (c :: ·)
    else if c = '\n' || isPrintable c then (severalLines escapes .outside r).map (c :: ·)
    else none
  | .carriage, c :: r =>
    if c = '\n' then (severalLines escapes .outside r).map (c :: ·) else none
  | .skippedCarriage, c :: r =>
    if c = '\n' then severalLines escapes (.skipping true) r else none
  | .skipping pastEnd, c :: r =>
    if isBlank c then severalLines escapes (.skipping pastEnd) r
    else if c = '\n' then severalLines escapes (.skipping true) r
    else if c = '\r' then severalLines escapes .skippedCarriage r
    else if !pastEnd then none
    else if escapes && c = backslash then severalLines escapes (.escape .letter) r
    else if isPrintable c then (severalLines escapes .outside r).map (c :: ·)
    else none
  | .escape .outside, _ :: _ => none
  | .escape .letter, c :: r =>
    match letterEscape? c with
    | some d => (severalLines escapes .outside r).map (d :: ·)
    | none =>
      match numericEscape? c with
      | some n => severalLines escapes (.escape (.number n 0)) r
      | none =>
        if isBlank c then severalLines escapes (.skipping false) r
        else if c = '\n' then severalLines escapes (.skipping true) r
        else if c = '\r' then severalLines escapes .skippedCarriage r
        else none
  | .escape (.number left value), c :: r =>
    match hexDigit? c with
    | none => none
    | some d =>
      if left ≤ 1 then
        match charOfNumber? (16 * value + d) with
        | some e => (severalLines escapes .outside r).map (e :: ·)
        | none => none
      else severalLines escapes (.escape (.number (left - 1) (16 * value + d))) r

/-- Drops the line end right after the opening marks, which is not part of the text. -/
def dropFirstLineEnd (s : List Char) : List Char := (lineEnd? s).getD s

/-! ## 5. Any quoted text -/

namespace Quoted

/-- The text that a content stands for, if it is closed and all of it means something. -/
def text? (t : Quoted) : Option (List Char) :=
  t.content.bind fun s =>
    if t.several then severalLines t.escapes .outside (dropFirstLineEnd s)
    else if t.escapes then escapedLine .outside s
    else literalLine s

end Quoted

end SuiteDriver.Toml
