import PipelineEngine.Calendar.Date
import PipelineEngine.Calendar.Instant
import PipelineEngine.Text.Numeral
import PipelineEngine.Word

/-!
# Snowflakes

Numbers of 64 bits that increase with time: milliseconds since 2020, the number of the
node that gave them out, and a sequence number within the millisecond.

A source never goes back: when the clock stands still or moves backwards it goes on
with the last millisecond, and a full sequence borrows the next one.
-/

namespace PipelineEngine

/-- The bits of the parts of a snowflake below its milliseconds. -/
def Snowflake.nodeBits : Nat := 10
def Snowflake.sequenceBits : Nat := 12

/-- A node is named by a number that does not fit. -/
structure InvalidNode where
  node : Nat
deriving Repr, Inhabited, DecidableEq

def InvalidNode.message (e : InvalidNode) : String :=
  "Snowflake node id " ++ Numeral.decimal e.node ++ " does not fit in 10 bits"

/-- What gives out the snowflakes of a node. -/
structure SnowflakeSource where
  node : Nat
  /-- The milliseconds since 2020 of the last snowflake. -/
  lastMs : Nat
  sequence : Nat
  node_lt : node < Word.bound Snowflake.nodeBits := by decide
  sequence_lt : sequence < Word.bound Snowflake.sequenceBits := by decide
deriving Repr, DecidableEq

namespace SnowflakeSource

instance : Inhabited SnowflakeSource := ⟨{ node := 0, lastMs := 0, sequence := 0 }⟩

/-- The source of a node that has given out nothing. -/
def ofNode (node : Nat) : Except InvalidNode SnowflakeSource :=
  if h : node < Word.bound Snowflake.nodeBits then
    .ok { node, lastMs := 0, sequence := 0, node_lt := h }
  else .error ⟨node⟩

/-- The second at which the milliseconds start. -/
def epochSecond : Int := Date.dayNumber ⟨2020, 1, 1⟩ * Instant.secondsPerDay

/-- The milliseconds from the epoch to an instant. -/
def clock (t : Instant) : Int := (t.seconds - epochSecond) * 1000 + (t.nanos / 1000000 : Nat)

/-- The source after one more snowflake, the clock showing some milliseconds. -/
def step (s : SnowflakeSource) (now : Int) : SnowflakeSource :=
  if now ≤ s.lastMs then
    if h : s.sequence + 1 < Word.bound Snowflake.sequenceBits then
      { s with sequence := s.sequence + 1, sequence_lt := h }
    else { s with lastMs := s.lastMs + 1, sequence := 0, sequence_lt := by decide }
  else { s with lastMs := now.toNat, sequence := 0, sequence_lt := by decide }

/-- The snowflake that a source gave out last, in 64 bits with a sign. -/
def last (s : SnowflakeSource) : Int :=
  let n := (s.lastMs * Word.bound Snowflake.nodeBits + s.node) * Word.bound Snowflake.sequenceBits + s.sequence
  Int.bmod n (Word.bound 64)

/-- A new snowflake at an instant. -/
def next (s : SnowflakeSource) (t : Instant) : Int × SnowflakeSource :=
  let s := s.step (clock t)
  (s.last, s)

/-- Some snowflakes, all at one instant. -/
def take (t : Instant) : Nat → SnowflakeSource → List Int
  | 0, _ => []
  | n + 1, s =>
    let (number, s) := s.next t
    number :: take t n s

end SnowflakeSource

end PipelineEngine
