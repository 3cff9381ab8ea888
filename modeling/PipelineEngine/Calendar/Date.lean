/-!
# Dates

Days of the Gregorian calendar, extended without end in both directions and cut off
where instants end.  A day is also known by its number, counted from 1 January 1970:
`Date.dayNumber` and `Date.ofDayNumber` translate.
-/

namespace PipelineEngine

/-- A day of the calendar. -/
structure Date where
  year : Int
  /-- From 1 to 12. -/
  month : Nat
  /-- From 1 to the length of the month. -/
  day : Nat
deriving Repr, Inhabited, DecidableEq

namespace Date

/-- The first and the last year in which there are instants. -/
def firstYear : Int := -262143
def lastYear : Int := 262142

def isLeap (year : Int) : Bool :=
  year % 4 = 0 && (year % 100 ≠ 0 || year % 400 = 0)

/-- The number of days of a month. -/
def monthLength (year : Int) (month : Nat) : Nat :=
  match month with
  | 2 => if isLeap year then 29 else 28
  | 4 | 6 | 9 | 11 => 30
  | _ => 31

/-- The days of a year before a month. -/
def daysBeforeMonth (year : Int) : Nat → Nat
  | 0 => 0
  | 1 => 0
  | m + 2 => daysBeforeMonth year (m + 1) + monthLength year (m + 1)

/-- The days from the first day of the year 0 to the first day of a year. -/
def daysBeforeYear (year : Int) : Int :=
  365 * year + (year + 3) / 4 - (year + 99) / 100 + (year + 399) / 400

/-- The number of 1 January 1970, counted from the first day of the year 0. -/
def epoch : Int := 719528

/-- The date of a year, month and day, when there is one. -/
def ofParts? (year : Int) (month day : Nat) : Option Date :=
  if firstYear ≤ year ∧ year ≤ lastYear ∧ 1 ≤ month ∧ month ≤ 12 ∧ 1 ≤ day ∧
      day ≤ monthLength year month then
    some ⟨year, month, day⟩
  else none

/-- The last day of a month, when the day after it lies in the calendar. -/
def endOfMonth? (year : Int) (month : Nat) : Option Date :=
  let following := if month = 12 then ofParts? (year + 1) 1 1 else ofParts? year (month + 1) 1
  following.map fun _ => ⟨year, month, monthLength year month⟩

/-- The number of a day. -/
def dayNumber (d : Date) : Int :=
  daysBeforeYear d.year + (daysBeforeMonth d.year d.month + d.day : Nat) - 1 - epoch

/-- The year of the day that comes `n` days after the first day of the year 0: the
year that the mean length of a year gives, or one of its two neighbours. -/
def yearOf (n : Int) : Int :=
  let guess := n * 400 / 146097
  if n < daysBeforeYear guess then guess - 1
  else if daysBeforeYear (guess + 1) ≤ n then guess + 1
  else guess

/-- The month and day of the day that comes `n` days after the first day of a month,
looked for in at most `fuel` months more. -/
def monthFrom (year : Int) : (fuel month n : Nat) → Nat × Nat
  | 0, month, n => (month, n + 1)
  | fuel + 1, month, n =>
    if n < monthLength year month then (month, n + 1)
    else monthFrom year fuel (month + 1) (n - monthLength year month)

/-- The day of a number. -/
def ofDayNumber (n : Int) : Date :=
  let year := yearOf (n + epoch)
  let (month, day) := monthFrom year 11 1 (n + epoch - daysBeforeYear year).toNat
  ⟨year, month, day⟩

/-- The day of the week, Monday being 1. -/
def weekday (d : Date) : Nat := ((d.dayNumber + 3) % 7).toNat + 1

/-- The number of months from the first month of the year 0. -/
def monthIndex (d : Date) : Int := d.year * 12 + d.month - 1

end Date

end PipelineEngine
