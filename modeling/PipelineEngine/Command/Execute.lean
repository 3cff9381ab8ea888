import PipelineEngine.Command.Inspect

/-!
# Carrying commands out

From the words of a command line to the code that the program ends with.  A command that
fails says why on the standard error and ends with one; a command line that cannot be
read ends with two.
-/

namespace PipelineEngine.Command

open CommandM

variable {m : Type → Type} [Monad m] [Machine m]

/-- Carries a command out; `document` is the document that the command line names. -/
def execute (document : Option String) : Command → CommandM m ExitCode
  | .validate => checkDocument document
  | .run pipeline source => runPipeline document pipeline source
  | .respond endpoint source => answerRequest document endpoint source
  | .publish source payload user => publishEvent document source payload user
  | .nextJobs => showJobs document
  | .serveJobs => serve document
  | .status id => showRun id
  | .runs limit => listRuns limit
  | .config => showSettings

/-- What the program says when no command follows from its command line. -/
def explain : Stop → CommandM m ExitCode
  | .help outer rule => do
    printLines (Help.lines outer rule)
    return 0
  | .version => do
    printLine (programName ++ " " ++ version)
    return 0
  | .usage error => do
    complainLine ("error: " ++ error.message ++ "\n\nFor more information, try '--help'.")
    return 2

/-- Does what the words of a command line say. -/
def perform (words : List String) : m ExitCode := do
  let command : CommandM m ExitCode :=
    match read words with
    | .ok (command, document) => execute document command
    | .error stop => explain stop
  match ← command.run with
  | .ok code => return code
  | .error failure =>
    Machine.complain ("Error: " ++ failure.message ++ "\n")
    return 1

end PipelineEngine.Command
