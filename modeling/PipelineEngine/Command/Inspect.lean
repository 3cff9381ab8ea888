import PipelineEngine.Command.Engine
import PipelineEngine.Command.Help
import PipelineEngine.Decimal.Shortest

/-!
# Commands that show something

Checking a document, showing when jobs fire next, what the journals say of runs, and
what the settings are.  None of them runs a pipeline.
-/

namespace PipelineEngine.Command

open CommandM

variable {m : Type → Type} [Monad m] [Machine m]

/-- A row of a table: cells padded to the widths of their columns. -/
def tableRow (widths : List Nat) (cells : List String) : String :=
  " ".intercalate ((widths.zip cells).map fun (width, cell) => padRight width cell)

/-- A line across a table. -/
def tableRule (width : Nat) : String := String.ofList (List.replicate width '-')

/-! ## Documents and jobs -/

/-- How many things of a kind there are. -/
def counted (n : Nat) (kind : String) : String := Numeral.decimal n ++ " " ++ kind ++ "(s)"

/-- What a valid document holds. -/
def summary (d : Document) : String :=
  "Document is valid: " ++ ", ".intercalate [
    counted d.tables.length "table", counted d.pipelines.length "pipeline",
    counted d.endpoints.length "endpoint", counted d.jobs.length "job"]

/-- Checks a document. -/
def checkDocument (path : Option String) : CommandM m ExitCode := do
  let (document, _) ← loadDocument path
  match document.link 0 with
  | .ok model =>
    printLines (model.warnings.map ("warning: " ++ ·))
    printLine (summary document)
    return 0
  | .error faults =>
    complainLine (ConfigFault.report faults)
    return 1

/-- The columns of the table of jobs. -/
def jobWidths : List Nat := [24, 24, 30]

/-- The rows of jobs with their next fires at a time. -/
def jobRows (model : Model) (now : Instant) : List Job → Except SpanOverflow (List String)
  | [] => .ok []
  | job :: rest => do
    let next ←
      match model.schedule? job.name with
      | some schedule => schedule.fireAtOrAfter now
      | none => .ok none
    let shown := (next.map (·.offsetText)).getD "retired"
    return tableRow jobWidths [job.name, job.pipeline, shown] :: (← jobRows model now rest)

/-- The code of a program that a fault of its arithmetic has ended. -/
def brokenCode : ExitCode := 101

/-- Shows when the enabled jobs fire next. -/
def showJobs (path : Option String) : CommandM m ExitCode := do
  let (document, _) ← loadDocument path
  let model ← ofExcept .faults (document.link 0)
  let now ← Machine.now
  match JobBoard.enabled model with
  | [] =>
    printLine "No enabled jobs"
    return 0
  | jobs =>
    printLines [tableRow jobWidths ["JOB", "PIPELINE", "NEXT FIRE"], tableRule 78]
    match jobRows model now jobs with
    | .ok rows =>
      printLines rows
      return 0
    | .error _ => return brokenCode

/-- Runs jobs until somebody interrupts. -/
def serve (path : Option String) : CommandM m ExitCode := do
  let (engine, settings) ← loadEngine path
  Machine.serve settings engine
  return 0

/-! ## Journals -/

/-- The run of a journal; none when nothing was written into it. -/
def loadRun (directory : String) (id : Uuid) : CommandM m (Option Run) := do
  let directory := Path.join directory id.text
  if !(← Machine.makeDirectory directory) then throw (.runDirectory directory)
  let path := Path.join directory Journal.fileName
  match ← Machine.contents path with
  | .missing => return none
  | .unreadable => throw (.unreadableJournal path)
  | .found bytes =>
    let text ← ofOption (.unreadableJournal path) (Utf8.decode? bytes)
    return Run.ofEvents? (← ofExcept (.malformedJournal path) (Journal.replay text))

/-- The runs of some journals, those left out in which nothing was written. -/
def loadRuns (directory : String) : List Uuid → CommandM m (List Run)
  | [] => return []
  | id :: rest => do
    let run ← loadRun directory id
    return run.toList ++ (← loadRuns directory rest)

/-- The lines about a run. -/
def runLines (run : Run) : List String :=
  ["Run ID: " ++ run.id.text, "Pipeline: " ++ run.pipeline, "State: " ++ run.state.display,
    "Started: " ++ run.startedAt.spacedText] ++
  (run.completedAt.map fun t => "Completed: " ++ t.spacedText).toList ++
  (run.failedStep.map ("Failed step: " ++ ·)).toList ++
  ["Steps completed: " ++ Numeral.decimal run.stepsCompleted, "", "Step statuses:"] ++
  run.stepStatuses.map fun (step, reached) => "  " ++ step ++ ": " ++ reached.title

/-- Shows what the journal says of a run. -/
def showRun (text : String) : CommandM m ExitCode := do
  let id ← ofOption (.runId text) (Uuid.parse? text)
  let settings ← loadSettings
  let run ← ofOption (.unknownRun id) (← loadRun settings.runsDirectory id)
  printLines (runLines run)
  return 0

/-- The columns of the table of runs. -/
def runWidths : List Nat := [38, 24, 15]

def runRow (run : Run) : String := tableRow runWidths [run.id.text, run.pipeline, run.state.word]

/-- Lists the latest runs. -/
def listRuns (limit : Nat) : CommandM m ExitCode := do
  let directory := (← loadSettings).runsDirectory
  let names ←
    match ← Machine.directories directory with
    | .missing => pure []
    | .unreadable => throw (.unreadableRuns directory)
    | .found names => pure names
  let known ← loadRuns directory (Journal.runs names)
  if known.isEmpty then printLine "No runs found"
  else
    let latest := known.mergeSort fun a b => b.startedAt ≤ a.startedAt
    printLines ([tableRow runWidths ["RUN ID", "PIPELINE", "STATE"], tableRule 79] ++
      (latest.take limit).map runRow)
  return 0

/-! ## Settings -/

def onOff (b : Bool) : String := if b then "true" else "false"

/-- The lines about the settings. -/
def settingsLines (s : Settings) : List String := [
  "Stepline configuration",
  "",
  "Config file: " ++ s.configFile.getD "(none - using defaults)",
  "Document:    " ++ s.document.getD "(none)",
  "",
  "Paths:",
  "  Home: " ++ s.home,
  "  Runs: " ++ s.runsDirectory,
  "",
  "Safety limits:",
  "  Max steps:         " ++ Numeral.decimal s.limits.maxSteps,
  "  Max payload bytes: " ++ Numeral.decimal s.limits.maxPayloadBytes,
  "  Step timeout:      " ++ Numeral.decimal s.limits.stepTimeoutSeconds ++ "s",
  "  Run timeout:       " ++ Numeral.decimal s.limits.runTimeoutSeconds ++ "s",
  "",
  "Retry policy:",
  "  Max attempts:  " ++ Numeral.decimal s.retry.maxAttempts,
  "  Initial delay: " ++ Numeral.decimal s.retry.initialDelayMs ++ "ms",
  "  Max delay:     " ++ Numeral.decimal s.retry.maxDelayMs ++ "ms",
  "  Multiplier:    " ++ Decimal.plainText s.retry.backoff,
  "",
  "Runtime:",
  "  Channel capacity: " ++ Numeral.decimal s.channelCapacity,
  "  Max poll:         " ++ Numeral.decimal s.maxPollSeconds ++ "s",
  "  Node id:          " ++ Numeral.decimal s.nodeId,
  "  Journal:          " ++ onOff s.journal,
  "  Launcher:         " ++ s.launcher]

/-- Shows the settings. -/
def showSettings : CommandM m ExitCode := do
  printLines (settingsLines (← loadSettings))
  return 0

end PipelineEngine.Command
