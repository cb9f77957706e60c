import SuiteDriver.Toml.Moment
import SuiteDriver.Toml.Value

/-!
# Values without quotes

Truth values, numbers, dates and times. Such a value goes as far as words, points and blanks between
them go; what it is depends on how it starts, and whether it means anything is decided after that.

`bareText` finds where a value ends, and `bareValue?` says what it is.
-/

namespace SuiteDriver.Toml

/-! ## 1. Where a value ends -/

/-- Splits a text where the value at its start ends. Blanks belong to the value if more of it comes
after them. A quotation mark may stand inside a word, but not at its start: `atStart` says whether a
word could start here. -/
def bareText (atStart : Bool) : List Char → List Char × List Char
  | [] => ([], [])
  | c :: r =>
    if isBlank c then
      let p := bareText true r
      if p.1.isEmpty then ([], c :: r) else (c :: p.1, p.2)
    else if !isBareValue c || (atStart && isMark c) then ([], c :: r)
    else
      let p := bareText (c == '.') r
      (c :: p.1, p.2)

/-! ## 2. What a value is -/

/-- Whether a character makes a number a decimal. -/
def marksDecimal (c : Char) : Bool := c == '.' || c == 'e' || c == 'E'

/-- The number, date or time `written`, of which `unsigned` is the part after the sign. -/
def numberOrMoment? (negative : Bool) (written unsigned : List Char) : Option Value :=
  let whole := unsigned.takeWhile Char.isDigit
  match unsigned.dropWhile Char.isDigit with
  | [] =>
    if whole = ['0'] ∨ (whole ≠ [] ∧ whole.head? ≠ some '0') then
      some (.integer (decimalValue? written))
    else none
  | c :: r =>
    if c = '-' ∨ c = ':' then if isMoment written then some .moment else none
    else if (c :: r).contains ' ' then none
    else if (c :: r).any marksDecimal then
      if wellGrouped 10 written then
        (decimal? negative unsigned).map fun d => .float (.finite d)
      else none
    else if c = '_' ∧ unsigned.head? ≠ some '0' ∧ wellGrouped 16 written then
      some (.integer (decimalValue? written))
    else none

/-- The value `written`, of which `unsigned` is the part after the sign, if there is one. -/
def signedValue? (negative : Bool) (written unsigned : List Char) : Option Value :=
  if unsigned = "inf".toList then some (.float (.infinite negative))
  else if unsigned = "nan".toList then some (.float .notANumber)
  else numberOrMoment? negative written unsigned

/-- The whole number that digits after the mark of a base write. -/
def basedValue? (base : Nat) (digits : List Char) : Option Value :=
  if areDigitsOf base digits then some (.integer (valueOf? base digits)) else none

/-- What a value without quotes is, if it means anything. -/
def bareValue? (s : List Char) : Option Value :=
  if s = "true".toList then some (.boolean true)
  else if s = "false".toList then some (.boolean false)
  else
    match s with
    | '0' :: 'x' :: r => basedValue? 16 r
    | '0' :: 'o' :: r => basedValue? 8 r
    | '0' :: 'b' :: r => basedValue? 2 r
    | '+' :: r => signedValue? false s r
    | '-' :: r => signedValue? true s r
    | r => signedValue? false s r

end SuiteDriver.Toml
