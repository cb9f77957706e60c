import SuiteDriver.Toml.Reader

/-!
# Dates and times

A date, a time, or both with or without an offset. Only whether a text is one matters here, and that
every field is in its range: the days of the month, leap years, and a sixtieth second.
-/

namespace SuiteDriver.Toml

/-- The number of two decimal digits, and what follows them. -/
def twoDigits? : List Char → Option (Nat × List Char)
  | a :: b :: r =>
    if a.isDigit && b.isDigit then
      some (10 * (a.toNat - '0'.toNat) + (b.toNat - '0'.toNat), r)
    else none
  | _ => none

/-- Whether February of `year` has 29 days. -/
def isLeapYear (year : Nat) : Bool :=
  year % 4 == 0 && (year % 100 != 0 || year % 400 == 0)

/-- How many days a month has. -/
def daysInMonth (year month : Nat) : Nat :=
  if month = 2 then (if isLeapYear year then 29 else 28)
  else if month = 4 ∨ month = 6 ∨ month = 9 ∨ month = 11 then 30
  else 31

/-- What follows a date, if one stands here. -/
def afterDate? (s : List Char) : Option (List Char) :=
  match twoDigits? s with
  | some (century, r) =>
    match twoDigits? r with
    | some (years, '-' :: r) =>
      match twoDigits? r with
      | some (month, '-' :: r) =>
        match twoDigits? r with
        | some (day, r) =>
          if 1 ≤ month ∧ month ≤ 12 ∧ 1 ≤ day ∧ day ≤ daysInMonth (100 * century + years) month
          then some r else none
        | none => none
      | _ => none
    | _ => none
  | none => none

/-- What follows the fraction of a second: nothing may be missing after its point. -/
def afterFraction? : List Char → Option (List Char)
  | '.' :: c :: r => if c.isDigit then some (r.dropWhile Char.isDigit) else none
  | '.' :: [] => none
  | s => some s

/-- What follows a time, if one stands here. Seconds may be left out. -/
def afterTime? (s : List Char) : Option (List Char) :=
  match twoDigits? s with
  | some (hour, ':' :: r) =>
    match twoDigits? r with
    | some (minute, r) =>
      if hour ≤ 23 ∧ minute ≤ 59 then
        match r with
        | ':' :: t =>
          match twoDigits? t with
          | some (second, u) => if second ≤ 60 then afterFraction? u else none
          | none => none
        | _ => some r
      else none
    | none => none
  | _ => none

/-- Whether the text is an offset from universal time, or empty. -/
def isOffset : List Char → Bool
  | [] => true
  | [c] => c == 'Z' || c == 'z'
  | c :: r =>
    (c == '+' || c == '-') &&
      match twoDigits? r with
      | some (hour, ':' :: t) =>
        match twoDigits? t with
        | some (minute, []) => hour ≤ 23 && minute ≤ 59
        | _ => false
      | _ => false

/-- Whether the text is a date, a time, or a date and a time. -/
def isMoment (s : List Char) : Bool :=
  match afterDate? s with
  | some [] => true
  | some (c :: r) =>
    (c == 'T' || c == 't' || c == ' ') &&
      match afterTime? r with
      | some t => isOffset t
      | none => false
  | none => afterTime? s == some []

end SuiteDriver.Toml
