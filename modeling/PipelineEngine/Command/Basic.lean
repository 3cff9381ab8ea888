import PipelineEngine.Command.Grammar

/-!
# Commands

What the program can be told to do, and the grammar of its command lines.
-/

namespace PipelineEngine

/-- Where a payload comes from and what is said about it. -/
structure InputSource where
  /-- A file; without one the standard input is read. -/
  file : Option String
  contentType : Option String
  /-- The arguments that go with it, as JSON. -/
  args : Option String
deriving Repr, Inhabited, DecidableEq

/-- What the program is told to do. -/
inductive Command where
  /-- Check a document. -/
  | validate
  /-- Run a pipeline. -/
  | run (pipeline : String) (input : InputSource)
  /-- Answer a request. -/
  | respond (endpoint : String) (input : InputSource)
  /-- Publish an event and show its deliveries. -/
  | publish (source payload : String) (user : Option String)
  /-- Show when jobs fire next. -/
  | nextJobs
  /-- Run jobs until interrupted. -/
  | serveJobs
  /-- Show what the journal says of a run. -/
  | status (run : String)
  /-- List the latest runs. -/
  | runs (limit : Nat)
  /-- Show the settings. -/
  | config
deriving Repr, Inhabited, DecidableEq

namespace Command

/-- The name of the program. -/
def programName : String := "stepline"

def version : String := "0.1.0"

/-! ## The grammar -/

/-- The option that names the document, which every command takes. -/
def documentOption : OptionRule :=
  ⟨"document", 'd', .path, "Assembled configuration document (YAML or JSON)", none⟩

/-- The options of commands that take an input. -/
def inputOptions (input contentType args : String) : List OptionRule := [
  ⟨"input", 'i', .path, input, none⟩,
  ⟨"content-type", 't', .text, contentType, none⟩,
  ⟨"args", 'a', .text, args, none⟩]

/-- A command with its document option. -/
def rule (name about : String) (arguments : List ArgumentRule) (options : List OptionRule)
    (commands : List CommandRule) : CommandRule :=
  .mk name about arguments (documentOption :: options) commands

def validateRule : CommandRule := rule "validate" "Validate a document and print warnings" [] [] []

def runRule : CommandRule :=
  rule "run" "Run a pipeline" [⟨"pipeline", "Pipeline name"⟩]
    (inputOptions "Input file (reads from stdin if piped)" "Content type of the input"
      "Pipeline args as JSON") []

def respondRule : CommandRule :=
  rule "respond" "Execute a request endpoint and print its response"
    [⟨"endpoint", "Endpoint name or \x60METHOD path\x60"⟩]
    (inputOptions "Request body file (reads from stdin if piped)" "Request content type"
      "Request args as JSON") []

def publishRule : CommandRule :=
  rule "publish" "Publish an event and print what subscribers receive"
    [⟨"source", "\x60custom:<name>\x60 or \x60<table>:insert|update|delete\x60"⟩]
    [⟨"payload", 'p', .text, "Custom payload, or the primary key of a table event, as JSON",
        some "\x7b\x7d"⟩,
      ⟨"user", 'u', .text, "Acting user for table events", none⟩] []

def jobsRule : CommandRule :=
  rule "jobs" "Inspect or run scheduled jobs" [] [] [
    rule "next" "Show the next fire time of every enabled job" [] [] [],
    rule "serve" "Run the scheduler until interrupted" [] [] []]

def statusRule : CommandRule :=
  rule "status" "Check the status of a run" [⟨"run_id", "Run ID (UUID)"⟩] [] []

def runsRule : CommandRule :=
  rule "runs" "List recent runs" []
    [⟨"limit", 'l', .count, "Maximum number of runs to show", some "10"⟩] []

def configRule : CommandRule := rule "config" "Show resolved configuration (debug)" [] [] []

/-- The grammar of the program. -/
def programRule : CommandRule :=
  rule programName
    "Pipeline execution engine for declarative endpoint, event, column and job pipelines" [] [] [
    validateRule, runRule, respondRule, publishRule, jobsRule, statusRule, runsRule, configRule]

/-! ## Reading -/

/-- The input that a command line describes. -/
def inputOf (l : CommandLine) : InputSource :=
  ⟨l.option? "input", l.option? "content-type", l.option? "args"⟩

/-- The command of a command line. -/
def ofLine? (l : CommandLine) : Option Command :=
  match l.path with
  | ["validate"] => some .validate
  | ["run"] => some (.run (l.argument 0) (inputOf l))
  | ["respond"] => some (.respond (l.argument 0) (inputOf l))
  | ["publish"] =>
    some (.publish (l.argument 0) ((l.option? "payload").getD "") (l.option? "user"))
  | ["jobs", "next"] => some .nextJobs
  | ["jobs", "serve"] => some .serveJobs
  | ["status"] => some (.status (l.argument 0))
  | ["runs"] =>
    some (.runs (((l.option? "limit").bind fun s => Numeral.natural? 10 s.toList).getD 0))
  | ["config"] => some .config
  | _ => none

/-- The command of some words, and the document that they name. -/
def read (words : List String) : Except Stop (Command × Option String) := do
  let line ← programRule.read words
  match ofLine? line with
  | some command => return (command, line.option? documentOption.name)
  | none => .error (.usage .missingCommand)

end Command

end PipelineEngine
