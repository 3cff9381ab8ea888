import PipelineEngine.Digest.Sha256
import PipelineEngine.Journal.Event

/-!
# Journal entries

What a run writes into its journal as it makes progress.  An entry becomes an event
when it is given an identifier and a time.  The key of a step names its run, the step and
the bytes of its input, so that a repeated event can be told from a new one.
-/

namespace PipelineEngine

/-! ## Keys -/

namespace EventKey

/-- The first sixteen digits of the digest of an input. -/
def inputHash (input : List UInt8) : String :=
  String.ofList ((Sha256.hexDigest input).toList.take 16)

/-- The key of a step that is given an input. -/
def ofStep (run : Uuid) (step : String) (input : List UInt8) : String :=
  run.text ++ ":" ++ step ++ ":" ++ inputHash input

/-- The key of the start of a run. -/
def ofStart (run : Uuid) : String := run.text ++ ":start"

/-- The key of the end of a run. -/
def ofEnd (run : Uuid) : String := run.text ++ ":complete"

/-- The key of a run's cancellation. -/
def ofCancel (run : Uuid) : String := run.text ++ ":cancel"

/-- The key of a step that failed before it had an input. -/
def ofFailure (run : Uuid) (step : String) : String := run.text ++ ":" ++ step ++ ":failed"

/-- The key of a failed attempt after which another one follows. -/
def ofRetry (key : String) (attempt : Nat) : String := key ++ ":retry:" ++ Numeral.decimal attempt

end EventKey

/-! ## Entries -/

/-- An event of a run before it has an identifier and a time. -/
structure JournalEntry where
  run : Uuid
  step : Option String
  kind : RunEventKind
  key : String
  summary : String
  attempt : Option Nat
  durationMs : Option Nat
  error : Option String
deriving Repr, Inhabited, DecidableEq

namespace JournalEntry

/-- The event of an entry; its status follows from its kind. -/
def stamp (e : JournalEntry) (id : Uuid) (time : Instant) : RunEvent :=
  { e with id, time, status := e.kind.status }

def runStarted (run : Uuid) (label : String) : JournalEntry :=
  ⟨run, some label, .runStarted, EventKey.ofStart run, "Pipeline '" ++ label ++ "' started",
    none, none, none⟩

def runCompleted (run : Uuid) (label : String) : JournalEntry :=
  ⟨run, none, .runCompleted, EventKey.ofEnd run, "Pipeline '" ++ label ++ "' completed",
    none, none, none⟩

/-- The end of a run that a failure or a safety limit halted. -/
def runHalted (run : Uuid) (label : String) (kind : RunEventKind) (error : String) : JournalEntry :=
  ⟨run, none, kind, EventKey.ofEnd run, "Pipeline '" ++ label ++ "' halted", none, none, some error⟩

def runCancelled (run : Uuid) (label step : String) : JournalEntry :=
  ⟨run, some step, .runCancelled, EventKey.ofCancel run, "Pipeline '" ++ label ++ "' cancelled",
    none, none, none⟩

def stepStarted (run : Uuid) (step key : String) : JournalEntry :=
  ⟨run, some step, .stepStarted, key, "Step '" ++ step ++ "' started", none, none, none⟩

def stepRetrying (run : Uuid) (step key : String) (attempt : Nat) (error : String) : JournalEntry :=
  ⟨run, some step, .stepRetrying, EventKey.ofRetry key attempt,
    "Step '" ++ step ++ "' attempt " ++ Numeral.decimal attempt ++ " failed, retrying",
    some attempt, none, some error⟩

def stepFailed (run : Uuid) (step error : String) (durationMs : Nat) : JournalEntry :=
  ⟨run, some step, .stepFailed, EventKey.ofFailure run step, "Step '" ++ step ++ "' failed",
    none, some durationMs, some error⟩

def stepCompleted (run : Uuid) (step key : String) (durationMs attempts : Nat) : JournalEntry :=
  ⟨run, some step, .stepCompleted, key,
    "Step '" ++ step ++ "' completed in " ++ Numeral.decimal durationMs ++ "ms after " ++
      Numeral.decimal attempts ++ " attempt(s)",
    none, some durationMs, none⟩

end JournalEntry

end PipelineEngine
