/-!
# Binary floating point of 64 bits, in whole numbers

A magnitude is a pair of a significand and a power of two. Rounding takes an exact quotient of
natural numbers to the nearest such pair, a tie to the even significand. Nothing here computes with
hardware floating point, so every rounding can be reasoned about.

`Number/Shortest` writes magnitudes as decimals and `Duration` adds and prints them.
-/

namespace SuiteDriver.Number

/-! ## 1. Rounding a quotient to a whole number -/

/-- The whole number nearest to `num / den`; of two equally near, the even one. -/
def roundDiv (num den : Nat) : Nat :=
  let q := num / den
  let r := num % den
  if 2 * r < den then q
  else if den < 2 * r then q + 1
  else if q % 2 = 0 then q else q + 1

/-! ## 2. Magnitudes -/

/-- The magnitude `significand · 2 ^ exponent`. -/
structure Magnitude where
  /-- The significand, below `2 ^ 53`. -/
  significand : Nat
  exponent : Int
deriving DecidableEq, Repr, Inhabited

namespace Magnitude

/-- The least power of two that a magnitude may have. -/
def leastExponent : Int := -1074

/-- Zero. -/
def zero : Magnitude := ⟨0, leastExponent⟩

/-- The magnitude as an exact quotient of natural numbers. -/
def toQuotient (x : Magnitude) : Nat × Nat :=
  (x.significand * Nat.pow 2 x.exponent.toNat, Nat.pow 2 (-x.exponent).toNat)

/-- The power of two that gives `num / den` a significand of 53 bits, or the least one. -/
def exponentFor (num den : Nat) : Int :=
  let k : Int := (num.log2 : Int) - (den.log2 : Int)
  let atLeast : Bool := den * Nat.pow 2 k.toNat ≤ num * Nat.pow 2 (-k).toNat
  max leastExponent (if atLeast then k - 52 else k - 53)

/-- The magnitude nearest to `num / den`, however large. -/
def nearest (num den : Nat) : Magnitude :=
  if num = 0 then zero
  else
    let e := exponentFor num den
    let m := roundDiv (num * Nat.pow 2 (-e).toNat) (den * Nat.pow 2 e.toNat)
    if m = Nat.pow 2 53 then ⟨Nat.pow 2 52, e + 1⟩ else ⟨m, e⟩

/-- Whether the magnitude is within the range of the format. -/
def isFinite (x : Magnitude) : Bool := x.exponent ≤ 971

/-- The magnitude nearest to `x + y`. -/
def add (x y : Magnitude) : Magnitude :=
  let (a, b) := x.toQuotient
  let (c, d) := y.toQuotient
  nearest (a * d + c * b) (b * d)

end Magnitude

end SuiteDriver.Number
