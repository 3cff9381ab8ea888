import PipelineEngine.Report.Models

/-!
# Descriptions of journals

Runs and the entries of their journals without what differs from one run to the next:
identifiers and times.
-/

namespace PipelineEngine

namespace Report

/-- A text in which the milliseconds that a step took are left out. -/
def withoutDuration (s : String) : String :=
  let mark := "completed in "
  match s.splitOn mark with
  | [] => s
  | first :: rest =>
    String.join (first :: rest.map fun part =>
      let digits := part.toList.takeWhile Numeral.isDigit
      let tail := part.toList.drop digits.length
      if !digits.isEmpty && "ms".toList.isPrefixOf tail then mark ++ "_" ++ String.ofList tail
      else mark ++ part)

end Report

/-- An entry of a journal without its identifiers and times. -/
def RunEvent.summaryValue (e : RunEvent) : Value :=
  .ofPairs [
    ("type", .string e.kind.name), ("status", .string e.status.name), ("step", Report.optional e.step),
    ("key", .string (e.key.replace e.run.text "RUN")),
    ("summary", .string (Report.withoutDuration e.summary)),
    ("attempt", .ofOption (e.attempt.map .nat)), ("timed", .bool e.durationMs.isSome),
    ("error", Report.optional e.error)]

namespace Run

/-- A run without its identifier and times. -/
def summaryValue (run : Run) : Value :=
  .ofPairs [
    ("pipeline", .string run.pipeline), ("state", run.state.toValue),
    ("display", .string run.state.display), ("steps_completed", .nat run.stepsCompleted),
    ("step_statuses", .object (run.stepStatuses.map fun (k, s) => (k, .string s.name))),
    ("failed_step", Report.optional run.failedStep), ("completed", .bool run.completedAt.isSome)]

/-- All that a journal says of a run. -/
def pairs (run : Run) : List (String × Value) := [
  ("run", run.toValue), ("display", .string run.state.display), ("running", .bool run.isRunning),
  ("duration_ms", .ofOption (run.durationMs.map .int))]

end Run

end PipelineEngine
