import SuiteDriver.Number.Binary64

/-!
# Durations

A duration is a number of seconds and of nanoseconds. It is shown in seconds with two places: the
seconds and the fraction are each rounded to 64-bit floating point, added with rounding, and the
exact value of the sum is written to two places, a tie to the even digit.

`Duration.hundredths` is what `Duration.text` writes.
-/

namespace SuiteDriver

open Number

/-- A length of time. -/
structure Duration where
  secs : Nat
  /-- Nanoseconds beyond the seconds, fewer than a thousand million. -/
  nanos : Nat
deriving DecidableEq, Repr, Inhabited

namespace Duration

/-- No time at all. -/
def zero : Duration := ⟨0, 0⟩

/-- The duration of so many seconds and nanoseconds, of which a thousand million are a second. -/
def ofParts (secs nanos : Nat) : Duration :=
  ⟨secs + nanos / 1000000000, nanos % 1000000000⟩

/-- The duration in seconds, in floating point. -/
def seconds (d : Duration) : Magnitude :=
  (Magnitude.nearest d.secs 1).add (Magnitude.nearest d.nanos 1000000000)

/-- The hundredths of a second that are shown. -/
def hundredths (d : Duration) : Nat :=
  let (num, den) := d.seconds.toQuotient
  roundDiv (100 * num) den

/-- Hundredths as a decimal with two places. -/
def placesText (n : Nat) : String :=
  toString (n / 100) ++ "." ++ toString (n / 10 % 10) ++ toString (n % 10)

/-- The duration as it is shown. -/
def text (d : Duration) : String := placesText d.hundredths

/-- The duration in whole milliseconds. -/
def millis (d : Duration) : Nat := 1000 * d.secs + d.nanos / 1000000

end Duration

end SuiteDriver
