import PipelineEngine.Calendar.Instant
import PipelineEngine.Text.Blank
import PipelineEngine.Text.Case
import PipelineEngine.Text.Cut
import PipelineEngine.Text.Numeral
import PipelineEngine.Word

/-!
# Intervals and frequencies

The unit in which a schedule counts, and which of the units it takes: every n-th one,
or those whose place in a larger unit is listed.  A month is 31 days and a year 365;
the units that start or end a month or year follow the calendar instead.
-/

namespace PipelineEngine

/-- The unit in which a schedule counts. -/
inductive IntervalUnit where
  | minute
  | hour
  | day
  | week
  /-- 31 days. -/
  | month
  | monthStart
  | monthEnd
  /-- 365 days. -/
  | year
  | yearStart
  | yearEnd
deriving Repr, Inhabited, DecidableEq

/-- Why a frequency cannot be read. -/
inductive FrequencyReason where
  | notPositive
  | zero
  | notInteger (part : String)
  | outside (member least greatest : Int)
  | emptyList
deriving Repr, DecidableEq

def FrequencyReason.message : FrequencyReason → String
  | .notPositive => "expected a positive integer"
  | .zero => "multiple must be at least 1"
  | .notInteger part => "'" ++ part ++ "' is not an integer"
  | .outside member least greatest =>
    Numeral.signed member ++ " is outside " ++ Numeral.signed least ++ "..=" ++
      Numeral.signed greatest ++ " for this interval"
  | .emptyList => "empty list"

/-- Why a job has no schedule. -/
inductive ScheduleError where
  | invalidTimestamp (field value : String)
  | unknownInterval (text : String)
  | invalidFrequency (value : String) (reason : FrequencyReason)
  | endBeforeStart
deriving Repr, DecidableEq

def ScheduleError.message : ScheduleError → String
  | .invalidTimestamp field value => "invalid " ++ field ++ " timestamp '" ++ value ++ "'"
  | .unknownInterval text => "unknown interval '" ++ text ++ "'"
  | .invalidFrequency value reason => "invalid frequency '" ++ value ++ "': " ++ reason.message
  | .endBeforeStart => "end is before start"

namespace IntervalUnit

/-- The written names of units. -/
def names : List (String × IntervalUnit) := [
  ("minute", .minute), ("hour", .hour), ("day", .day), ("week", .week), ("month", .month),
  ("month_start", .monthStart), ("month_end", .monthEnd), ("year", .year),
  ("year_start", .yearStart), ("year_end", .yearEnd)]

/-- Reads a unit. Case does not matter, and a hyphen stands for an underscore. -/
def parse (text : String) : Except ScheduleError IntervalUnit :=
  let normal := (Text.lower (Text.trim text.toList)).map fun c => if c = '-' then '_' else c
  match names.lookup (String.ofList normal) with
  | some unit => .ok unit
  | none => .error (.unknownInterval text)

/-- The length in seconds of the units that have a fixed one. -/
def fixedSeconds? : IntervalUnit → Option Nat
  | .minute => some 60
  | .hour => some 3600
  | .day => some 86400
  | .week => some (7 * 86400)
  | .month => some (31 * 86400)
  | .year => some (365 * 86400)
  | _ => none

/-- Whether the unit counts years. -/
def countsYears : IntervalUnit → Bool
  | .year | .yearStart | .yearEnd => true
  | _ => false

/-- The least and the greatest place that a unit can have in a larger one. -/
def placeRange? : IntervalUnit → Option (Int × Int)
  | .minute => some (0, 59)
  | .hour => some (0, 23)
  | .day => some (1, 7)
  | .week => some (1, 5)
  | .month | .monthStart | .monthEnd => some (1, 12)
  | .year | .yearStart | .yearEnd => none

/-- The place of a point of time: the minute of the hour, the hour of the day, the day
of the week, the week of the month, the month of the year, or the year. -/
def place (unit : IntervalUnit) (t : Instant) : Int :=
  match unit with
  | .minute => t.minute
  | .hour => t.hour
  | .day => t.date.weekday
  | .week => ((t.date.day - 1) / 7 + 1 : Nat)
  | .month | .monthStart | .monthEnd => t.date.month
  | .year | .yearStart | .yearEnd => t.date.year

end IntervalUnit

/-- Which units a schedule takes. -/
inductive Frequency where
  /-- Every n-th unit. -/
  | every (n : Nat)
  /-- The units whose places are listed, in increasing order. -/
  | only (places : List Int)
deriving Repr, Inhabited, DecidableEq

namespace Frequency

/-- Adds a place to a list in increasing order, unless it is there. -/
def addPlace (place : Int) : List Int → List Int
  | [] => [place]
  | p :: rest =>
    if place < p then place :: p :: rest
    else if place = p then p :: rest
    else p :: addPlace place rest

/-- Reads the items of a list of places. -/
def readPlaces (unit : IntervalUnit) : List (List Char) → List Int → Except FrequencyReason (List Int)
  | [], places => if places.isEmpty then .error .emptyList else .ok places
  | part :: rest, places =>
    match (Numeral.integer? 10 part).filter fun n => Word.fits 63 n with
    | none => .error (.notInteger (String.ofList part))
    | some n =>
      match unit.placeRange? with
      | some (least, greatest) =>
        if n < least ∨ greatest < n then .error (.outside n least greatest)
        else readPlaces unit rest (addPlace n places)
      | none => readPlaces unit rest (addPlace n places)

/-- Reads a frequency without blanks at its ends: a multiple, or a list of places with a
comma in it. -/
def read (unit : IntervalUnit) (s : List Char) : Except FrequencyReason Frequency :=
  if s.contains ',' then
    let parts := ((Text.pieces ',' s).map Text.trim).filter fun part => !part.isEmpty
    (readPlaces unit parts []).map .only
  else
    match (Numeral.natural? 10 s).filter (· < Word.bound 32) with
    | none => .error .notPositive
    | some 0 => .error .zero
    | some n => .ok (.every n)

/-- Reads the frequency of a unit; without one every unit is taken. -/
def parse (unit : IntervalUnit) (text : Option String) : Except ScheduleError Frequency :=
  let s := Text.trim (text.getD "").toList
  if s.isEmpty then .ok (.every 1)
  else (read unit s).mapError (.invalidFrequency (String.ofList s))

/-- How many units lie between two that are looked at. -/
def multiple : Frequency → Nat
  | .every n => n
  | .only _ => 1

end Frequency

end PipelineEngine
