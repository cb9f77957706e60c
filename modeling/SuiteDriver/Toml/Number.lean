import SuiteDriver.Number.Binary64
import SuiteDriver.Text.Split
import SuiteDriver.Toml.Quoted

/-!
# Numbers

Whole numbers of any size, in four bases, and decimals with a fraction or an exponent. Digits may be
grouped by single underscores. A decimal is kept exactly as written; `Decimal.magnitude?` rounds it,
and refuses one beyond the range of 64-bit floating point. A whole number is taken by how it starts:
one with underscores may go on with characters that are no digits, and then has no value.
-/

namespace SuiteDriver.Toml

/-! ## 1. Digits -/

/-- The value of a digit below `base`. -/
def digit? (base : Nat) (c : Char) : Option Nat := (hexDigit? c).filter (· < base)

/-- Whether a character is a digit below `base`. -/
def isDigitOf (base : Nat) (c : Char) : Bool := (digit? base c).isSome

/-- The number that digits write in `base`, the first digit foremost. -/
def ofDigits (base : Nat) (ds : List Nat) : Nat := ds.foldl (fun n d => base * n + d) 0

/-- The digits among the characters of a text, in order. -/
def digitsIn (base : Nat) (s : List Char) : List Nat := s.filterMap (digit? base)

/-- Whether a character may stand in a run of grouped decimal digits. -/
def isDigitRun (c : Char) : Bool := c.isDigit || c == '_'

/-- Whether a part between two underscores is joined to what is before it by a digit of `base`, and
to what is after it as well unless it is the `last`. -/
def isGroup (base : Nat) (last : Bool) (part : List Char) : Bool :=
  part.head?.any (isDigitOf base) && (last || part.getLast?.any (isDigitOf base))

/-- Whether the parts after an underscore are groups of digits at their ends. -/
def areGroups (base : Nat) : List (List Char) → Bool
  | [] => true
  | p :: ps => isGroup base ps.isEmpty p && areGroups base ps

/-- Whether each underscore of a text stands between two digits of `base`. What is one character long
and comes first may be anything: it is a digit or a sign. -/
def wellGrouped (base : Nat) (s : List Char) : Bool :=
  match Text.splitAt '_' s with
  | [] | [_] => true
  | p :: ps =>
    !p.isEmpty && (p.length == 1 || p.getLast?.any (isDigitOf base)) && areGroups base ps

/-! ## 2. Whole numbers -/

/-- Whether the digits after the mark of a base are grouped well; there may be none. -/
def areDigitsOf (base : Nat) (s : List Char) : Bool :=
  s.all (fun c => c == '_' || isDigitOf base c) &&
    (s.isEmpty || areGroups base (Text.splitAt '_' s))

/-- The number that digits in `base` write, if there are any. -/
def valueOf? (base : Nat) (s : List Char) : Option Int :=
  match digitsIn base s with
  | [] => none
  | ds => some (ofDigits base ds)

/-- The number of a text in base ten: a sign or none, and then digits and underscores only. -/
def decimalValue? : List Char → Option Int
  | '+' :: s => if s.all isDigitRun then valueOf? 10 s else none
  | '-' :: s => if s.all isDigitRun then (valueOf? 10 s).map (- ·) else none
  | s => if s.all isDigitRun then valueOf? 10 s else none

/-! ## 3. Decimals -/

/-- The number `± digits · 10 ^ exponent`, exactly as written. -/
structure Decimal where
  /-- Whether a minus stands in front, of a zero too. -/
  negative : Bool
  /-- All digits written, as one number. -/
  digits : Nat
  /-- The power of ten of the last digit. -/
  exponent : Int
deriving DecidableEq, Repr

/-- A floating-point value as written. -/
inductive FloatValue
  | finite (d : Decimal)
  | infinite (negative : Bool)
  /-- Not a number; its sign means nothing. -/
  | notANumber
deriving DecidableEq, Repr

/-- The digits at the start of a text, at least one, and what follows them. -/
def digitRun? (s : List Char) : Option (List Nat × List Char) :=
  match digitsIn 10 (s.takeWhile isDigitRun) with
  | [] => none
  | ds => some (ds, s.dropWhile isDigitRun)

/-- The digits before the point; of several the first may not be a zero. -/
def wholePart? (s : List Char) : Option (List Nat × List Char) :=
  match digitRun? s with
  | some (ds, rest) => if 2 ≤ ds.length ∧ s.head? = some '0' then none else some (ds, rest)
  | none => none

/-- The digits after the point, if there is one. -/
def fractionPart? : List Char → Option (List Nat × List Char)
  | '.' :: s => digitRun? s
  | s => some ([], s)

/-- Digits that end the text, as a number. -/
def lastDigits? (s : List Char) : Option Int :=
  match digitRun? s with
  | some (ds, []) => some (ofDigits 10 ds)
  | _ => none

/-- The exponent that ends the text, if there is one. -/
def exponentPart? : List Char → Option Int
  | [] => some 0
  | e :: s =>
    if e = 'e' ∨ e = 'E' then
      match s with
      | '+' :: t => lastDigits? t
      | '-' :: t => (lastDigits? t).map (- ·)
      | t => lastDigits? t
    else none

/-- A decimal without its sign: digits, then a fraction or an exponent or both. -/
def decimal? (negative : Bool) (s : List Char) : Option Decimal :=
  match wholePart? s with
  | none => none
  | some (whole, r) =>
    match fractionPart? r with
    | none => none
    | some (fraction, t) =>
      (exponentPart? t).map fun x =>
        ⟨negative, ofDigits 10 (whole ++ fraction), x - (fraction.length : Int)⟩

/-! ## 4. Rounding -/

/-- The decimal's magnitude, rounded to the nearest; nothing when it is beyond the range. Digits
far beyond the range on either side are decided before any power is computed. -/
def Decimal.magnitude? (d : Decimal) : Option Number.Magnitude :=
  let first : Int := (d.digits.log2 : Int) * 30103 / 100000 + d.exponent
  if d.digits = 0 then some .zero
  else if 400 < first then none
  else if first < -400 then some .zero
  else
    let x :=
      Number.Magnitude.nearest (d.digits * Nat.pow 10 d.exponent.toNat)
        (Nat.pow 10 (-d.exponent).toNat)
    if x.isFinite then some x else none

end SuiteDriver.Toml
