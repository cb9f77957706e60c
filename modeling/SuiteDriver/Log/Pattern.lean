/-!
# Patterns for the values of records

A directive of the log can ask for a value by a pattern: a regular expression, with groups, sets of
characters, alternatives, repetitions and escapes. No record is ever compared with one, because such
directives are about spans; but a text that is no pattern spoils the whole filter.

`isPattern` walks the pattern once and keeps what is open.
-/

namespace SuiteDriver.Log

/-- How far a set of characters has been read. -/
inductive SetPart
  | opened
  /-- Just after the mark that inverts it; a closing bracket here is a character of the set. -/
  | inverted
  | filled
deriving DecidableEq, Repr

/-- What a walk over a pattern is in the middle of, with the number of open groups. -/
inductive PatternPart
  /-- Between items; `item` says whether there is one that could be repeated. -/
  | items (groups : Nat) (item : Bool)
  | group (groups : Nat)
  | escape (groups : Nat)
  /-- In a set of characters, with so many sets around it. -/
  | set (groups around : Nat) (part : SetPart)
  | setEscape (groups around : Nat)
deriving DecidableEq, Repr

namespace PatternPart

/-- Whether a character may follow a backslash: any sign, and the letters with a meaning. -/
def isEscapable (c : Char) : Bool :=
  if c.isAlphanum then "dDsSwWafnrtvAz".toList.contains c else c.toNat < 0x80

/-- What a character between items leads to. -/
def nextItem (groups : Nat) (item : Bool) (c : Char) : Option PatternPart :=
  if c = '(' then some (.group (groups + 1))
  else if c = ')' then if groups = 0 then none else some (.items (groups - 1) true)
  else if c = '|' then some (.items groups false)
  else if c = '*' ∨ c = '+' ∨ c = '?' then if item then some (.items groups true) else none
  else if c = '\x7b' then none
  else if c = '[' then some (.set groups 0 .opened)
  else if c = '\\' then some (.escape groups)
  else some (.items groups true)

/-- What a character in a set leads to. -/
def nextInSet (groups around : Nat) (part : SetPart) (c : Char) : PatternPart :=
  if c = '^' ∧ part = .opened then .set groups around .inverted
  else if c = ']' ∧ part = .filled then
    if around = 0 then .items groups true else .set groups (around - 1) .filled
  else if c = '[' then .set groups (around + 1) .opened
  else if c = '\\' then .setEscape groups around
  else .set groups around .filled

/-- What a character leads to; nothing where it cannot stand. -/
def next (p : PatternPart) (c : Char) : Option PatternPart :=
  match p with
  | items groups item => nextItem groups item c
  | group groups => if c = '?' then some (.items groups false) else nextItem groups false c
  | escape groups => if isEscapable c then some (.items groups true) else none
  | set groups around part => some (nextInSet groups around part c)
  | setEscape groups around => if isEscapable c then some (.set groups around .filled) else none

/-- Whether a pattern may end here. -/
def mayEnd : PatternPart → Bool
  | items 0 _ => true
  | _ => false

end PatternPart

/-- Whether a text is a pattern. -/
def isPattern (s : List Char) : Bool :=
  (s.foldlM PatternPart.next (.items 0 false)).any PatternPart.mayEnd

end SuiteDriver.Log
