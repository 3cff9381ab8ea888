import PipelineEngine.Journal.Run
import PipelineEngine.Text.Blank
import PipelineEngine.Text.Cut
import PipelineEngine.Value.Read

/-!
# Journals as text

A journal is a text of lines, each the JSON of one entry.  Writing appends a line;
replaying reads every line that is not blank and refuses the journal when one of them
is no entry.  An `EventStore` is the file that holds this text.
-/

namespace PipelineEngine.Journal

/-- The name of a journal's file. -/
def fileName : String := "events.jsonl"

/-- The lines of a text.  A line ends before a line feed, and before a carriage return
in front of it. -/
def lines (s : List Char) : List (List Char) :=
  let pieces := Text.pieces '\n' s
  let pieces := if pieces.getLast? = some [] then pieces.dropLast else pieces
  pieces.map fun line => if line.getLast? = some '\r' then line.dropLast else line

/-- The node of a JSON text in which the fields of an object may be repeated. -/
def nodeOfLine? (s : List Char) : Option Node :=
  match Value.readMembers? s with
  | some members => some (.map (members.map fun (name, v) => (.string name, Node.ofValue v)))
  | none => (Value.read? s).map Node.ofValue

/-- The entry of a line. -/
def eventOfLine? (s : List Char) : Option RunEvent := (nodeOfLine? s).bind RunEvent.ofNode?

/-- A line that is no entry, counted from one. -/
structure MalformedLine where
  number : Nat
deriving Repr, DecidableEq

def MalformedLine.message (path : String) (e : MalformedLine) : String :=
  path ++ ":" ++ Numeral.decimal e.number ++ ": malformed run event"

/-- The entries of lines, the first of which has a number. -/
def replayLines : Nat → List (List Char) → Except MalformedLine (List RunEvent)
  | _, [] => .ok []
  | number, line :: rest =>
    if (Text.trim line).isEmpty then replayLines (number + 1) rest
    else
      match eventOfLine? line with
      | none => .error ⟨number⟩
      | some e => (replayLines (number + 1) rest).map (e :: ·)

/-- The entries of a journal, oldest first. -/
def replay (text : String) : Except MalformedLine (List RunEvent) := replayLines 1 (lines text.toList)

/-- The journal with one more entry. -/
def append (text : String) (e : RunEvent) : String := text ++ e.line ++ "\n"

/-- Whether a step completed under a key. -/
def hasCompleted (events : List RunEvent) (key : String) : Bool :=
  events.any fun e => e.kind = .stepCompleted && e.key = key

/-- The runs among the directories of a place, in order. -/
def runs (directories : List String) : List Uuid :=
  (directories.filterMap Uuid.parse?).mergeSort fun a b => a.bits ≤ b.bits

end PipelineEngine.Journal

/-! ## Event stores

The journal of a run as it is kept: a file in the run's directory, which does not exist before
the first entry is written.  A store holds nothing else, so whoever opens it once more finds what
was written before.
-/

namespace PipelineEngine

/-- The store of a run's journal. -/
structure EventStore where
  /-- The text of the file, when there is one. -/
  contents : Option String
deriving Repr, Inhabited, DecidableEq

namespace EventStore

/-- The store of a run that has written nothing. -/
def fresh : EventStore := ⟨none⟩

@[simp] theorem contents_fresh : fresh.contents = none := rfl

/-- Writes an entry behind the others. -/
def append (s : EventStore) (e : RunEvent) : EventStore :=
  ⟨some (Journal.append (s.contents.getD "") e)⟩

@[simp] theorem contents_append (s : EventStore) (e : RunEvent) :
    (s.append e).contents = some (Journal.append (s.contents.getD "") e) := rfl

/-- Opens the store once more. -/
def reopen (s : EventStore) : EventStore := ⟨s.contents⟩

@[simp] theorem contents_reopen (s : EventStore) : s.reopen.contents = s.contents := rfl

/-- The entries of the journal, oldest first. -/
def replay (s : EventStore) : Except Journal.MalformedLine (List RunEvent) :=
  match s.contents with
  | none => .ok []
  | some text => Journal.replay text

/-- The latest entry. -/
def lastEvent (s : EventStore) : Except Journal.MalformedLine (Option RunEvent) :=
  s.replay.map List.getLast?

/-- Whether a step completed under a key. -/
def isStepCompleted (s : EventStore) (key : String) : Except Journal.MalformedLine Bool :=
  s.replay.map fun events => Journal.hasCompleted events key

end EventStore

end PipelineEngine
