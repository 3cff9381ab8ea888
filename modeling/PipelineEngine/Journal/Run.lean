import PipelineEngine.Journal.Event

/-!
# Runs

What a journal tells about its run: the fold of its entries.
-/

namespace PipelineEngine

/-- How far a run has come. -/
inductive RunState where
  | running
  | completed
  | failed (error : String)
  | cancelled
  /-- A safety limit halted the run. -/
  | limited (limit : String)
deriving Repr, Inhabited, DecidableEq

namespace RunState

/-- The text of a state in messages. -/
def display : RunState → String
  | .running => "running"
  | .completed => "completed"
  | .failed error => "failed: " ++ error
  | .cancelled => "cancelled"
  | .limited limit => "halted: " ++ limit

/-- The word for a state in lists. -/
def word : RunState → String
  | .running => "running"
  | .completed => "completed"
  | .failed _ => "failed"
  | .cancelled => "cancelled"
  | .limited _ => "safety-limit"

def toValue : RunState → Value
  | .running => .ofPairs [("status", .string "running")]
  | .completed => .ofPairs [("status", .string "completed")]
  | .failed error => .ofPairs [("status", .string "failed"), ("error", .string error)]
  | .cancelled => .ofPairs [("status", .string "cancelled")]
  | .limited limit =>
    .ofPairs [("status", .string "safety_limit_reached"), ("limit", .string limit)]

end RunState

/-- A run as its journal shows it. -/
structure Run where
  id : Uuid
  pipeline : String
  state : RunState
  startedAt : Instant
  completedAt : Option Instant
  /-- The number of steps that completed, hooks included. -/
  stepsCompleted : Nat
  /-- The latest status of each step. -/
  stepStatuses : Fields StepStatus
  failedStep : Option String
deriving Repr, Inhabited, DecidableEq

namespace Run

/-- The run of a journal of which nothing has been read but its first entry's run and
time. -/
def start (first : RunEvent) : Run := ⟨first.run, "", .running, first.time, none, 0, [], none⟩

/-- The run after an event of one of its steps. -/
def applyStep (run : Run) (e : RunEvent) (step : String) : Run :=
  { run with
    stepStatuses := run.stepStatuses.insert step e.status
    stepsCompleted := if e.kind = .stepCompleted then run.stepsCompleted + 1 else run.stepsCompleted
    failedStep := if e.kind = .stepFailed then some step else run.failedStep }

/-- The run after an event. -/
def apply (run : Run) (e : RunEvent) : Run :=
  let run := if e.kind.isTerminal then { run with completedAt := some e.time } else run
  let error := e.error.getD ""
  match e.kind with
  | .runStarted => { run with state := .running, startedAt := e.time, pipeline := e.step.getD "" }
  | .runCompleted => { run with state := .completed }
  | .runFailed => { run with state := .failed error }
  | .runCancelled => { run with state := .cancelled }
  | .safetyLimitReached => { run with state := .limited error }
  | .stepStarted | .stepRetrying | .stepCompleted | .stepFailed =>
    match e.step with
    | some step => run.applyStep e step
    | none => run

/-- The run of a journal, none when nothing was written. -/
def ofEvents? : List RunEvent → Option Run
  | [] => none
  | first :: rest => some ((first :: rest).foldl apply (start first))

def isRunning (run : Run) : Bool := run.state = .running

/-- Whether the latest status of a step is that it completed. -/
def hasCompleted (run : Run) (step : String) : Bool :=
  run.stepStatuses.get? step = some .completed

/-- The milliseconds from the start to the end of the run. -/
def durationMs (run : Run) : Option Int := run.completedAt.map fun t => t.millisSince run.startedAt

def toValue (run : Run) : Value :=
  .ofPairs [
    ("id", .string run.id.text),
    ("pipeline_name", .string run.pipeline),
    ("state", run.state.toValue),
    ("started_at", .string run.startedAt.zuluText),
    ("completed_at", .ofOption (run.completedAt.map fun t => .string t.zuluText)),
    ("steps_completed", .nat run.stepsCompleted),
    ("step_statuses", .object (run.stepStatuses.map fun (k, s) => (k, .string s.name))),
    ("failed_step", .ofOption (run.failedStep.map .string))]

end Run

end PipelineEngine
