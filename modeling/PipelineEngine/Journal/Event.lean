import PipelineEngine.Calendar.Timestamp
import PipelineEngine.Identifier.Uuid
import PipelineEngine.Shape.Record
import PipelineEngine.Value.Print
import PipelineEngine.Word

/-!
# Run events

The entries of a run's journal.  They never hold payloads, only summaries of them.
-/

namespace PipelineEngine

/-- The state of a step. -/
inductive StepStatus where
  | pending
  | running
  | completed
  | failed
deriving Repr, Inhabited, DecidableEq

def StepStatus.name : StepStatus → String
  | .pending => "pending"
  | .running => "running"
  | .completed => "completed"
  | .failed => "failed"

/-- The name of a status for people. -/
def StepStatus.title : StepStatus → String
  | .pending => "Pending"
  | .running => "Running"
  | .completed => "Completed"
  | .failed => "Failed"

def StepStatus.names : List (String × StepStatus) :=
  [.pending, .running, .completed, .failed].map fun s : StepStatus => (s.name, s)

/-- What an entry of a journal reports. -/
inductive RunEventKind where
  | runStarted
  | runCompleted
  /-- The run halted on a failing step. -/
  | runFailed
  /-- The caller cancelled the run. -/
  | runCancelled
  | stepStarted
  | stepCompleted
  | stepFailed
  /-- A transient failure, after which another attempt follows. -/
  | stepRetrying
  | safetyLimitReached
deriving Repr, Inhabited, DecidableEq

namespace RunEventKind

def name : RunEventKind → String
  | .runStarted => "run_started"
  | .runCompleted => "run_completed"
  | .runFailed => "run_failed"
  | .runCancelled => "run_cancelled"
  | .stepStarted => "step_started"
  | .stepCompleted => "step_completed"
  | .stepFailed => "step_failed"
  | .stepRetrying => "step_retrying"
  | .safetyLimitReached => "safety_limit_reached"

def names : List (String × RunEventKind) :=
  [.runStarted, .runCompleted, .runFailed, .runCancelled, .stepStarted, .stepCompleted,
    .stepFailed, .stepRetrying, .safetyLimitReached].map fun k : RunEventKind => (k.name, k)

/-- The status of a step or run after an event. -/
def status : RunEventKind → StepStatus
  | .runStarted | .stepStarted | .stepRetrying => .running
  | .runCompleted | .stepCompleted => .completed
  | .runFailed | .runCancelled | .stepFailed | .safetyLimitReached => .failed

/-- Whether an event closes its run. -/
def isTerminal : RunEventKind → Bool
  | .runCompleted | .runFailed | .runCancelled | .safetyLimitReached => true
  | _ => false

end RunEventKind

/-- An entry of a journal. -/
structure RunEvent where
  id : Uuid
  time : Instant
  run : Uuid
  /-- The step concerned, or the label of the pipeline when the run starts. -/
  step : Option String
  kind : RunEventKind
  key : String
  summary : String
  status : StepStatus
  /-- The attempt that failed, when another one follows. -/
  attempt : Option Nat
  durationMs : Option Nat
  error : Option String
deriving Repr, Inhabited, DecidableEq

namespace RunEvent

/-- The names of the fields, in their order. -/
def fieldNames : List String :=
  ["id", "timestamp", "run_id", "step_id", "event_type", "idempotency_key", "payload_summary",
    "status", "attempt", "duration_ms", "error"]

def ofNode? (node : Node) : Option RunEvent := do
  let r ← Record.read fieldNames node
  let uuid (n : Node) := n.asString.bind Uuid.parse?
  return {
    id := ← r.required "id" uuid
    time := ← r.required "timestamp" fun n => n.asString.bind Instant.ofEvent?
    run := ← r.required "run_id" uuid
    step := ← r.nullable "step_id" Node.asString
    kind := ← r.required "event_type" (Node.asChoice RunEventKind.names)
    key := ← r.required "idempotency_key" Node.asString
    summary := ← r.required "payload_summary" Node.asString
    status := ← r.required "status" (Node.asChoice StepStatus.names)
    attempt := ← r.optional "attempt" (Node.asNat (Word.bound 32))
    durationMs := ← r.nullable "duration_ms" (Node.asNat (Word.bound 64))
    error := ← r.nullable "error" Node.asString }

/-- The fields as they are written, in their order.  The attempt is left out where
there is none. -/
def pairs (e : RunEvent) : List (String × Value) :=
  [("id", .string e.id.text),
    ("timestamp", .string e.time.zuluText),
    ("run_id", .string e.run.text),
    ("step_id", .ofOption (e.step.map .string)),
    ("event_type", .string e.kind.name),
    ("idempotency_key", .string e.key),
    ("payload_summary", .string e.summary),
    ("status", .string e.status.name)] ++
  (match e.attempt with
    | some n => [("attempt", .nat n)]
    | none => []) ++
  [("duration_ms", .ofOption (e.durationMs.map .nat)),
    ("error", .ofOption (e.error.map .string))]

def toValue (e : RunEvent) : Value := .ofPairs e.pairs

/-- The line of an entry, without its end. -/
def line (e : RunEvent) : String := "\x7b" ++ Value.printFields e.pairs ++ "\x7d"

end RunEvent

end PipelineEngine
