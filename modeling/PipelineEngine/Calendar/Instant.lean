import PipelineEngine.Calendar.Date

/-!
# Instants

Points of time in UTC with a resolution of nanoseconds.  A leap second is the second
before it carried on: its nanoseconds go from one to two thousand million.
-/

namespace PipelineEngine

/-- A point of time. -/
structure Instant where
  /-- Whole seconds since 1970, days having 86400 of them. -/
  seconds : Int
  /-- Below `10^9`, and from there below `2 * 10^9` in a leap second. -/
  nanos : Nat
deriving Repr, Inhabited, DecidableEq

namespace Instant

/-- The seconds of a day. -/
def secondsPerDay : Int := 86400

/-- The nanoseconds of a second. -/
def nanosPerSecond : Nat := 1000000000

/-- Whether one point comes before another. -/
def before (t u : Instant) : Bool :=
  t.seconds < u.seconds || (t.seconds = u.seconds && t.nanos < u.nanos)

instance : LT Instant := ⟨fun t u => t.before u = true⟩
instance : LE Instant := ⟨fun t u => u.before t = false⟩

instance (t u : Instant) : Decidable (t < u) := inferInstanceAs (Decidable (_ = true))
instance (t u : Instant) : Decidable (t ≤ u) := inferInstanceAs (Decidable (_ = false))

/-- The later of two points. -/
def later (t u : Instant) : Instant := if t < u then u else t

/-- The date at a point. -/
def date (t : Instant) : Date := Date.ofDayNumber (t.seconds / secondsPerDay)

/-- The whole seconds of the day that have passed at a point. -/
def secondOfDay (t : Instant) : Nat := (t.seconds % secondsPerDay).toNat

def hour (t : Instant) : Nat := t.secondOfDay / 3600
def minute (t : Instant) : Nat := t.secondOfDay / 60 % 60

/-- Whether a point lies in a leap second. -/
def inLeapSecond (t : Instant) : Bool := nanosPerSecond ≤ t.nanos

/-- A time of day on a date. -/
def onDate (d : Date) (secondOfDay nanos : Nat) : Instant :=
  ⟨d.dayNumber * secondsPerDay + secondOfDay, nanos⟩

/-- The same time of day on another date. -/
def sameTimeOn (t : Instant) (d : Date) : Instant := onDate d t.secondOfDay t.nanos

/-- The first and the last second in which there are instants. -/
def firstSecond : Int := Date.dayNumber ⟨Date.firstYear, 1, 1⟩ * secondsPerDay
def lastSecond : Int := (Date.dayNumber ⟨Date.lastYear, 12, 31⟩ + 1) * secondsPerDay - 1

/-- Whether a point lies in the calendar. -/
def inCalendar (t : Instant) : Bool := firstSecond ≤ t.seconds && t.seconds ≤ lastSecond

/-- The point a number of seconds later.  The way out of a leap second starts at the
second that it carries on. -/
def after (t : Instant) (n : Nat) : Instant :=
  if t.inLeapSecond && n ≠ 0 then ⟨t.seconds + n, t.nanos - nanosPerSecond⟩
  else ⟨t.seconds + n, t.nanos⟩

/-- The point one nanosecond later. -/
def next (t : Instant) : Instant :=
  if t.nanos + 1 = nanosPerSecond || 2 * nanosPerSecond ≤ t.nanos + 1 then ⟨t.seconds + 1, 0⟩
  else ⟨t.seconds, t.nanos + 1⟩

/-- The point some nanoseconds later on a clock without leap seconds. -/
def plusNanos (t : Instant) (n : Nat) : Instant :=
  ⟨t.seconds + ((t.nanos + n) / nanosPerSecond : Nat), (t.nanos + n) % nanosPerSecond⟩

/-- The nanoseconds from `u` to `t`.  A leap second counts when one of the two lies in
it and the other comes at a time of day on its far side. -/
def nanosSince (t u : Instant) : Int :=
  let leap : Int :=
    if u.secondOfDay < t.secondOfDay && u.inLeapSecond then 1
    else if t.secondOfDay < u.secondOfDay && t.inLeapSecond then -1
    else 0
  (t.seconds - u.seconds + leap) * nanosPerSecond + (t.nanos - u.nanos : Int)

/-- The whole seconds from `u` to `t`. -/
def secondsSince (t u : Instant) : Int := (t.nanosSince u).tdiv nanosPerSecond

/-- The whole milliseconds from `u` to `t`. -/
def millisSince (t u : Instant) : Int := (t.nanosSince u).tdiv 1000000

end Instant

end PipelineEngine
