import PipelineEngine.Calendar.Instant
import PipelineEngine.Text.Blank
import PipelineEngine.Text.Numeral

/-!
# Timestamps

The written forms of instants.  `Instant.text` writes RFC 3339 with as many digits of
a fraction as are needed, in groups of three.  Three readers differ in what they
admit: `parse?` takes the texts of job declarations, `ofEvent?` those of events.
-/

namespace PipelineEngine.Instant

/-! ## Writing -/

/-- A year: four digits, and a sign where that is not enough. -/
def yearText (year : Int) : String :=
  if 0 ≤ year ∧ year ≤ 9999 then Numeral.padded 10 4 year.toNat
  else (if year < 0 then "-" else "+") ++ Numeral.padded 10 4 year.natAbs

/-- A fraction of a second in nanoseconds. -/
def fractionText (nanos : Nat) : String :=
  if nanos = 0 then ""
  else if nanos % 1000000 = 0 then "." ++ Numeral.padded 10 3 (nanos / 1000000)
  else if nanos % 1000 = 0 then "." ++ Numeral.padded 10 6 (nanos / 1000)
  else "." ++ Numeral.padded 10 9 nanos

/-- The date of a point of time. -/
def dateText (t : Instant) : String :=
  let two := Numeral.padded 10 2
  yearText t.date.year ++ "-" ++ two t.date.month ++ "-" ++ two t.date.day

/-- The time of day of a point of time. -/
def clockText (t : Instant) : String :=
  let two := Numeral.padded 10 2
  let (second, nanos) :=
    if t.inLeapSecond then (t.secondOfDay % 60 + 1, t.nanos - nanosPerSecond)
    else (t.secondOfDay % 60, t.nanos)
  two t.hour ++ ":" ++ two t.minute ++ ":" ++ two second ++ fractionText nanos

/-- A point of time in RFC 3339, with the given text for the zone UTC. -/
def text (zone : String) (t : Instant) : String := t.dateText ++ "T" ++ t.clockText ++ zone

/-- The form with the offset `+00:00`. -/
def offsetText (t : Instant) : String := t.text "+00:00"

/-- The form with `Z`, in which events hold it. -/
def zuluText (t : Instant) : String := t.text "Z"

/-- The form for people, the parts parted by blanks. -/
def spacedText (t : Instant) : String := t.dateText ++ " " ++ t.clockText ++ " UTC"

/-! ## Reading -/

/-- A reader takes what it reads off the front of a text. -/
abbrev Reader := StateT (List Char) Option

namespace Reader

/-- A number of `least` to `most` digits. -/
def number (least most : Nat) : Reader Nat := fun s =>
  let digits := (s.take most).takeWhile Numeral.isDigit
  if digits.length < least then none
  else (Numeral.digits? 10 digits).map fun n => (n, s.drop digits.length)

/-- A number of digits without a bound. -/
def numeral : Reader Nat := fun s => number 1 s.length s

/-- A given character. -/
def mark (c : Char) : Reader Unit := fun s =>
  match s with
  | d :: rest => if d = c then some ((), rest) else none
  | [] => none

/-- One of some characters. -/
def oneOf (cs : List Char) : Reader Char := fun s =>
  match s with
  | d :: rest => if d ∈ cs then some (d, rest) else none
  | [] => none

/-- Skips characters of a class. -/
def skip (p : Char → Bool) : Reader Unit := fun s => some ((), s.dropWhile p)

/-- Blanks that may be left out. -/
def blanks : Reader Unit := skip Text.isBlank

/-- A number of one or two digits after blanks. -/
def part : Reader Nat := do
  blanks
  number 1 2

/-- A year after blanks: up to four digits, or any number of them after a sign. -/
def year : Reader Int := do
  blanks
  match ← get with
  | '-' :: rest => set rest; return -(← numeral)
  | '+' :: rest => set rest; return (← numeral)
  | _ => return (← number 1 4)

/-- The fraction of a second in nanoseconds; digits after the ninth are skipped. -/
def fraction : Reader Nat := do
  match ← get with
  | '.' :: rest =>
    set rest
    let before := rest.length
    let n ← number 1 9
    let digits := before - (← get).length
    skip Numeral.isDigit
    return n * Nat.pow 10 (9 - digits)
  | _ => return 0

/-- The sign of an offset. -/
def sign : Reader Int := do
  let c ← oneOf ['+', '-', '−']
  return if c = '+' then 1 else -1

/-- An offset from UTC in seconds: `Z`, or a sign with hours and minutes of two digits
each and what `separator` reads between them. -/
def offset (separator : Reader Unit) : Reader Int := do
  match ← get with
  | 'Z' :: rest => set rest; return 0
  | 'z' :: rest => set rest; return 0
  | _ =>
    let sign ← sign
    let hours ← number 2 2
    separator
    let minutes ← number 2 2
    if minutes ≤ 59 then return sign * (hours * 3600 + minutes * 60 : Nat) else failure

/-- What a reader reads from a whole text. -/
def whole? {α : Type} (r : Reader α) (s : List Char) : Option α :=
  match r s with
  | some (a, []) => some a
  | _ => none

end Reader

/-- The point of a date and a time of day.  A second of 60 is a leap second. -/
def ofParts? (year : Int) (month day hour minute second nanos : Nat) : Option Instant := do
  let d ← Date.ofParts? year month day
  if hour ≤ 23 ∧ minute ≤ 59 ∧ second ≤ 60 then
    if second = 60 then some (onDate d (hour * 3600 + minute * 60 + 59) (nanos + nanosPerSecond))
    else some (onDate d (hour * 3600 + minute * 60 + second) nanos)
  else none

/-- The point of UTC that a clock ahead of it by an offset shows as `t`. -/
def ahead? (t : Instant) (offset : Int) : Option Instant :=
  let u : Instant := ⟨t.seconds - offset, t.nanos⟩
  if offset.natAbs < 86400 && u.inCalendar then some u else none

open Reader

/-- RFC 3339. The day and the time may be parted by a blank, and letters may be small. -/
def rfc3339 : Reader Instant := do
  let year ← number 4 4
  mark '-'
  let month ← number 2 2
  mark '-'
  let day ← number 2 2
  let _ ← oneOf ['T', 't', ' ']
  let hour ← number 2 2
  mark ':'
  let minute ← number 2 2
  mark ':'
  let second ← number 2 2
  let nanos ← fraction
  let offset ← offset (mark ':')
  let t ← ofParts? year month day hour minute second nanos
  ahead? t offset

/-- A date: year, month and day, not padded where the writer did not care. -/
def dateParts : Reader (Int × Nat × Nat) := do
  let y ← year
  mark '-'
  let m ← part
  mark '-'
  let d ← part
  return (y, m, d)

/-- A date and a time without an offset, with the given character or, where none is
given, blanks between them, with or without seconds. -/
def dateTime (between : Reader Unit) (seconds : Bool) : Reader Instant := do
  let (y, m, d) ← dateParts
  between
  let hour ← part
  mark ':'
  let minute ← part
  let second ← if seconds then do mark ':'; part else pure 0
  ofParts? y m d hour minute second 0

/-- A date at its first second. -/
def dateOnly : Reader Instant := do
  let (y, m, d) ← dateParts
  ofParts? y m d 0 0 0 0

/-- The point that a timestamp of a job declares: RFC 3339, or a date with or without a
time, taken as UTC. -/
def parse? (s : String) : Option Instant :=
  let s := Text.trim s.toList
  [rfc3339, dateTime (mark 'T') true, dateTime blanks true, dateTime blanks false, dateOnly].findSome?
    fun r => r.whole? s

/-- The name of UTC, in any letter case, or else an offset. -/
def zone : Reader Int := do
  match ← get with
  | a :: b :: c :: rest =>
    if a.toUpper = 'U' && b.toUpper = 'T' && c.toUpper = 'C' then do set rest; return 0
    else offset (skip fun c => c = ':' || Text.isBlank c)
  | _ => offset (skip fun c => c = ':' || Text.isBlank c)

/-- The form of events: RFC 3339 with blanks between its parts, numbers not padded and
years of any length. -/
def lenient : Reader Instant := do
  let y ← year
  blanks
  mark '-'
  let m ← part
  blanks
  mark '-'
  let d ← part
  let _ ← oneOf ['T', 't', ' ']
  let hour ← part
  blanks
  mark ':'
  let minute ← part
  blanks
  mark ':'
  let second ← part
  let nanos ← fraction
  blanks
  let offset ← zone
  blanks
  let t ← ofParts? y m d hour minute second nanos
  ahead? t offset

/-- The point that the text of an event's time denotes. -/
def ofEvent? (s : String) : Option Instant := lenient.whole? s.toList

end PipelineEngine.Instant
