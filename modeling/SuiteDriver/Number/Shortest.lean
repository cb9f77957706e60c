import SuiteDriver.Number.Binary64

/-!
# The fewest decimal digits that read back

A magnitude is written with the fewest significant digits whose value rounds to it again; of two
such values with equally many digits the nearer one is taken, and of two equally near the larger.
The digits are written in positions, never with an exponent, and a whole value ends in a zero after
the point.
-/

namespace SuiteDriver.Number

/-- How many decimal digits a number has; one for zero. -/
def digitCount (n : Nat) : Nat := (Nat.toDigits 10 n).length

namespace Magnitude

/-- Numerators over the common denominator `4 · den`, where `num / den` is the magnitude: the lower
end, the value and the upper end of the numbers that round to it. -/
def interval (x : Magnitude) : Nat × Nat × Nat × Nat :=
  let (num, den) := x.toQuotient
  let unit := Nat.pow 2 x.exponent.toNat
  let below :=
    if x.significand = Nat.pow 2 52 && leastExponent < x.exponent then unit else 2 * unit
  (4 * num - below, 4 * num, 4 * num + 2 * unit, 4 * den)

/-- The power of ten of the first digit of `num / den`, for a quotient of at least `10 ^ -330`. -/
def leadingPower (num den : Nat) : Int :=
  (digitCount (num * Nat.pow 10 330 / den) : Int) - 331

/-- The multiple of `10 ^ power` nearest to the magnitude among those that round to it. -/
def decimalAt? (x : Magnitude) (power : Int) : Option Nat :=
  let (low, mid, high, den) := x.interval
  let up := Nat.pow 10 power.toNat
  let down := Nat.pow 10 (-power).toNat
  -- the grid point `d` has the value `d · up / down`; compare `d · up · den` with `numerator · down`
  let d := mid * down / (up * den)
  let fits (k : Nat) : Bool :=
    if x.significand % 2 = 0 then
      low * down ≤ k * up * den && k * up * den ≤ high * down
    else low * down < k * up * den && k * up * den < high * down
  let nearerBelow : Bool := mid * down - d * up * den < (d + 1) * up * den - mid * down
  if fits d && (nearerBelow || !fits (d + 1)) then some d
  else if fits (d + 1) then some (d + 1)
  else none

/-- The first decimal that reads back on the grids of `digits` and more significant digits. The grid
of no digits holds the power of ten just above the magnitude. -/
def shortestFrom (x : Magnitude) (first : Int) : Nat → Nat → Nat × Int
  | 0, digits => ((x.decimalAt? (first - (digits : Int) + 1)).getD 0, first - (digits : Int) + 1)
  | fuel + 1, digits =>
    match x.decimalAt? (first - (digits : Int) + 1) with
    | some d => (d, first - (digits : Int) + 1)
    | none => shortestFrom x first fuel (digits + 1)

/-- The shortest decimal `(d, p)`, of value `d · 10 ^ p`, that reads back as the magnitude. -/
def shortest (x : Magnitude) : Nat × Int :=
  if x.significand = 0 then (0, 0)
  else
    let (num, den) := x.toQuotient
    shortestFrom x (leadingPower num den) 17 0

/-- The decimal `d · 10 ^ p` in positions, with at least one digit after the point. -/
def positional (d : Nat) (p : Int) : String :=
  if 0 ≤ p then toString d ++ String.ofList (List.replicate p.toNat '0') ++ ".0"
  else
    let places := (-p).toNat
    let digits := Nat.toDigits 10 d
    let padded := List.replicate (places + 1 - digits.length) '0' ++ digits
    let whole := padded.length - places
    String.ofList (padded.take whole) ++ "." ++ String.ofList (padded.drop whole)

/-- The magnitude as a decimal. -/
def text (x : Magnitude) : String :=
  let (d, p) := x.shortest
  positional d p

end Magnitude

end SuiteDriver.Number
