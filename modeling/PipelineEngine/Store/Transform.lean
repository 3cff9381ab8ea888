import PipelineEngine.Run.Runner

/-!
# Column transforms

The steps that the values of a column go through, one value at a time: on their way
into a predicate, into the store or out of it.  Global hooks do not apply to them, and
their runs are not journaled.
-/

namespace PipelineEngine

/-- Why a value could not be transformed. -/
inductive TransformError where
  | failed (table column : String) (phase : ColumnPhase) (step reason : String)
  /-- The run had no outcome. -/
  | run (error : RunError)
deriving Repr, Inhabited, DecidableEq

def TransformError.message : TransformError → String
  | .failed table column phase step reason =>
    "Column '" ++ table ++ "." ++ column ++ "' " ++ phase.name ++
      " transform failed at step '" ++ step ++ "': " ++ reason
  | .run error => error.message

namespace Column

/-- Whether the column has steps in a phase. -/
def hasPhase (c : Column) (phase : ColumnPhase) : Bool := !(c.phaseSteps phase).isEmpty

/-- The arguments of a transform. -/
def transformArgs (c : Column) (table : String) (phase : ColumnPhase) (value : Value) : Value :=
  .ofPairs [("table", .string table), ("column", .string c.name), ("phase", .string phase.name),
    ("value", value)]

/-- What the run of a transform makes of the value. -/
def transformed (c : Column) (table : String) (phase : ColumnPhase) :
    Except RunError Execution → Except TransformError Value
  | .error e => .error (.run e)
  | .ok execution =>
    let outcome := execution.outcome
    if outcome.success then .ok outcome.body.value
    else
      .error (.failed table c.name phase (outcome.failedStep.getD "") (outcome.error.getD ""))

/-- Transforms a value of the column; without steps it stays as it is. -/
def transform (c : Column) (r : Runner) (m : Model) (table : String) (phase : ColumnPhase)
    (value : Value) : Dialogue (Except TransformError Value) :=
  if c.hasPhase phase then do
    let label := table ++ "." ++ c.name ++ ":" ++ phase.name
    let ctx := Context.start (c.transformArgs table phase value) m.env
    let result ← { r with journal := false }.runSteps label (c.phaseSteps phase) ctx (.parsed value)
    return c.transformed table phase result
  else return .ok value

end Column

namespace Table

/-- Transforms a value that a row holds under a name; names that are no column's pass. -/
def transformField (t : Table) (r : Runner) (m : Model) (phase : ColumnPhase) (name : String)
    (value : Value) : Dialogue (Except TransformError Value) :=
  match t.column? name with
  | some c => c.transform r m t.name phase value
  | none => return .ok value

/-- Transforms the values of a row in order of their names. -/
def transformRow (t : Table) (r : Runner) (m : Model) (phase : ColumnPhase) :
    Fields Value → Dialogue (Except TransformError (Fields Value))
  | [] => return .ok []
  | (name, value) :: rest => do
    match ← t.transformField r m phase name value with
    | .error e => return .error e
    | .ok value =>
      match ← t.transformRow r m phase rest with
      | .error e => return .error e
      | .ok rest => return .ok ((name, value) :: rest)

end Table

end PipelineEngine
