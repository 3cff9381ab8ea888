import PipelineEngine.Journal.Lines
import PipelineEngine.Settings.Load

/-!
# Failures of commands

Why a command came to no result, and the message that it ends with.
-/

namespace PipelineEngine

/-- Why a command came to no result. -/
inductive CommandFailure where
  | settings (error : SettingsError)
  | noDocument
  | unreadableDocument (path : String)
  | malformedDocument (path : String)
  | faults (all : List ConfigFault)
  | builderImage (builder : String)
  | node (error : InvalidNode)
  /-- A part of the command line is no JSON. -/
  | json (label : String)
  | unreadableInput (path : String)
  | payload (error : Payload.Malformed)
  | run (error : RunError)
  | journal (fault : JournalFault)
  | source (error : SourceError)
  /-- The payload of a table's event is no key. -/
  | noKey
  | runId (text : String)
  | unknownRun (id : Uuid)
  | runDirectory (path : String)
  | unreadableJournal (path : String)
  | malformedJournal (path : String) (line : Journal.MalformedLine)
  | unreadableRuns (path : String)

namespace Payload.Malformed

def message (e : Payload.Malformed) : String := "Malformed " ++ e.contentType ++ " payload"

end Payload.Malformed

namespace CommandFailure

def message : CommandFailure → String
  | .settings error => error.message
  | .noDocument => "No document given. Use --document <file> or set STEPLINE_DOCUMENT"
  | .unreadableDocument path => "Failed to read document: " ++ path
  | .malformedDocument path => "Failed to parse document: " ++ path
  | .faults all => ConfigFault.report all
  | .builderImage builder => "Invalid image for step builder '" ++ builder ++ "'"
  | .node error => error.message
  | .json label => "Invalid " ++ label ++ " JSON"
  | .unreadableInput path => "Failed to read input file: " ++ path
  | .payload error => error.message
  | .run error => error.message
  | .journal fault => fault.message
  | .source error => error.message
  | .noKey => "A table event payload must be a primary key object"
  | .runId text => "Invalid run ID: " ++ text
  | .unknownRun id => "Run " ++ id.text ++ " not found"
  | .runDirectory path => "Cannot create run directory " ++ path
  | .unreadableJournal path => "Cannot read journal " ++ path
  | .malformedJournal path line => line.message path
  | .unreadableRuns path => "Cannot list runs in " ++ path

end CommandFailure

/-- A command that may fail. -/
abbrev CommandM (m : Type → Type) := ExceptT CommandFailure m

variable {m : Type → Type} [Monad m] [Machine m]

/-- A machine for commands that may fail is one for commands that may not. -/
instance : Machine (CommandM m) where
  environment name := ExceptT.lift (Machine.environment name)
  directory := ExceptT.lift Machine.directory
  hasFile path := ExceptT.lift (Machine.hasFile path)
  canonical? path := ExceptT.lift (Machine.canonical? path)
  contents path := ExceptT.lift (Machine.contents path)
  directories path := ExceptT.lift (Machine.directories path)
  makeDirectory path := ExceptT.lift (Machine.makeDirectory path)
  input := ExceptT.lift Machine.input
  write bytes := ExceptT.lift (Machine.write bytes)
  complain text := ExceptT.lift (Machine.complain text)
  now := ExceptT.lift Machine.now
  carryOut settings p := ExceptT.lift (Machine.carryOut settings p)
  serve settings engine := ExceptT.lift (Machine.serve settings engine)

namespace CommandM

/-- The value of a result, whose error is a failure of the command. -/
def ofExcept {ε α : Type} (failure : ε → CommandFailure) : Except ε α → CommandM m α
  | .ok a => return a
  | .error e => throw (failure e)

/-- A value that has to be there. -/
def ofOption {α : Type} (failure : CommandFailure) : Option α → CommandM m α
  | some a => return a
  | none => throw failure

/-- Writes a line to the standard output. -/
def printLine (text : String) : CommandM m Unit := Machine.write (Utf8.encode (text ++ "\n"))

/-- Writes lines to the standard output. -/
def printLines : List String → CommandM m Unit
  | [] => return ()
  | line :: rest => do
    printLine line
    printLines rest

/-- Writes a line to the standard error. -/
def complainLine (text : String) : CommandM m Unit := Machine.complain (text ++ "\n")

end CommandM

end PipelineEngine
