import PipelineEngine.Calendar.Timestamp
import PipelineEngine.Document.Endpoint
import PipelineEngine.Schedule.Frequency
import PipelineEngine.Word

/-!
# Schedules

When a job fires.  The candidates of a schedule are the points one, two, three … units
(or their multiple) after its start; for units that follow the calendar, the start's
time of day on the days where such units start or end.  A candidate is a fire when it
lies between start and end and its place is listed, if places are.

A lookup finds the earliest fire at or after a point.  It starts at an estimated
candidate that does not lie after the point and looks at a bounded number of them.
-/

namespace PipelineEngine

/-- When a job fires. -/
structure Schedule where
  start : Instant
  stop : Option Instant
  unit : IntervalUnit
  frequency : Frequency
  /-- Whether the job fires again after its first fire. -/
  repeats : Bool
deriving Repr, Inhabited, DecidableEq

/-- The fault of a lookup that has to add more seconds than a span of time can have. -/
inductive SpanOverflow where
  | spanOverflow
deriving Repr, DecidableEq

namespace Schedule

/-- The schedule that a job declares. -/
def ofJob (job : Job) : Except ScheduleError Schedule := do
  let start ←
    match Instant.parse? job.start with
    | some t => .ok t
    | none => .error (.invalidTimestamp "start" job.start)
  let stop ←
    match job.stop.filter fun s => !(Text.trim s.toList).isEmpty with
    | none => .ok none
    | some s =>
      match Instant.parse? s with
      | some t => .ok (some t)
      | none => .error (.invalidTimestamp "end" s)
  if stop.any (· < start) then .error .endBeforeStart
  let unit ← IntervalUnit.parse job.interval
  let frequency ← Frequency.parse unit job.frequency
  return ⟨start, stop, unit, frequency, job.repeats⟩

/-! ## Candidates -/

/-- The longest span of time in seconds. -/
def maxSpan : Nat := (Word.bound 63 - 1) / 1000

/-- The candidate that lies a number of units after the start, for units that follow
the calendar. -/
def calendarCandidate? (s : Schedule) (units : Nat) : Option Instant :=
  let date :=
    match s.unit with
    | .monthStart =>
      let index := s.start.date.monthIndex + units
      Date.ofParts? (index / 12) ((index % 12).toNat + 1) 1
    | .monthEnd =>
      let index := s.start.date.monthIndex + units
      Date.endOfMonth? (index / 12) ((index % 12).toNat + 1)
    | .yearStart => Date.ofParts? (s.start.date.year + units) 1 1
    | .yearEnd => Date.ofParts? (s.start.date.year + units) 12 31
    | _ => none
  date.map s.start.sameTimeOn

/-- The candidate number `k`, if the calendar reaches so far. -/
def candidate (s : Schedule) (k : Nat) : Except SpanOverflow (Option Instant) :=
  let units := s.frequency.multiple * k
  match s.unit.fixedSeconds? with
  | some seconds =>
    let span := seconds * units
    if Word.bound 63 ≤ span then .ok none
    else if maxSpan < span then .error .spanOverflow
    else .ok (some (s.start.after span) |>.filter Instant.inCalendar)
  | none => .ok (s.calendarCandidate? units)

/-- The number of a candidate that does not lie after a point, if there is one. -/
def estimate (s : Schedule) (t : Instant) : Nat :=
  if t ≤ s.start then 0
  else
    match s.unit.fixedSeconds? with
    | some seconds => (t.secondsSince s.start).toNat / (seconds * s.frequency.multiple)
    | none =>
      let units :=
        if s.unit.countsYears then t.date.year - s.start.date.year
        else t.date.monthIndex - s.start.date.monthIndex
      units.toNat / s.frequency.multiple - 1

/-- Whether the place of a candidate is taken. -/
def takes (s : Schedule) (t : Instant) : Bool :=
  match s.frequency with
  | .every _ => true
  | .only places => places.contains (s.unit.place t)

/-- Whether the year of a candidate lies after all years that are listed. -/
def beyondYears (s : Schedule) (t : Instant) : Bool :=
  match s.frequency with
  | .every _ => false
  | .only places => s.unit.countsYears && places.all (· < t.date.year)

/-! ## Lookups -/

/-- The number of candidates that one lookup looks at. -/
def maxCandidates : Nat := 100000

/-- The first fire at or after a point among `fuel` candidates from number `k` on. -/
def searchFrom (s : Schedule) (t : Instant) : (fuel k : Nat) → Except SpanOverflow (Option Instant)
  | 0, _ => .ok none
  | fuel + 1, k =>
    match s.candidate k with
    | .error e => .error e
    | .ok none => .ok none
    | .ok (some c) =>
      if s.stop.any (· < c) then .ok none
      else if t ≤ c && s.start ≤ c && s.takes c then .ok (some c)
      else if s.beyondYears c then .ok none
      else searchFrom s t fuel (k + 1)

/-- The first fire at or after a point. -/
def search (s : Schedule) (t : Instant) : Except SpanOverflow (Option Instant) :=
  s.searchFrom t maxCandidates (s.estimate t)

/-- The first fire. -/
def firstFire (s : Schedule) : Except SpanOverflow (Option Instant) := s.search s.start

/-- The earliest fire at or after a point. -/
def fireAtOrAfter (s : Schedule) (t : Instant) : Except SpanOverflow (Option Instant) :=
  if s.repeats then s.search (t.later s.start)
  else s.firstFire.map fun fire => fire.filter (t ≤ ·)

/-- The earliest fire after a point. -/
def nextFire (s : Schedule) (t : Instant) : Except SpanOverflow (Option Instant) :=
  s.fireAtOrAfter t.next

/-- Whether there is no fire after a point. -/
def isExhausted (s : Schedule) (t : Instant) : Except SpanOverflow Bool :=
  (s.nextFire t).map Option.isNone

end Schedule

end PipelineEngine
