import PipelineEngine.Command.Basic
import PipelineEngine.Command.Failure
import PipelineEngine.Document.Basic
import PipelineEngine.Value.Print

/-!
# Commands that run pipelines

Running a pipeline, answering a request and publishing an event.  Each of them loads the
engine first, then reads what it is given, and then lets the machine carry out the
dialogue of the engine.
-/

namespace PipelineEngine

/-- The code that a program ends with. -/
abbrev ExitCode := UInt32

namespace Command

open CommandM

variable {m : Type → Type} [Monad m] [Machine m]

/-! ## Loading -/

def loadSettings : CommandM m Settings := do ofExcept .settings (← Settings.load)

/-- The document of a path. -/
def readDocument (path : String) : CommandM m Document := do
  match ← Machine.contents path with
  | .found bytes =>
    let text ← ofOption (.unreadableDocument path) (Utf8.decode? bytes)
    ofOption (.malformedDocument path) (Document.ofText? text)
  | _ => throw (.unreadableDocument path)

/-- The document that the command line or the settings name. -/
def loadDocument (path : Option String) : CommandM m (Document × Settings) := do
  let settings ← loadSettings
  let path ← ofOption .noDocument (path.or settings.document)
  return (← readDocument path, settings)

/-- Checks the images of a document's builders. -/
def checkBuilders (d : Document) : CommandM m Unit :=
  d.stepBuilders.forM fun b => do
    let image := trimBlanks b.image
    let image := (dropMarkText? "docker:" image).getD image
    let _ ← ofExcept (fun _ => .builderImage b.name) (ImageRef.parse image)

/-- The runner of the settings.  Steps without a built-in function run in containers. -/
def runnerOf (s : Settings) : Runner where
  providers := ⟨[], true⟩
  stepTimeout := s.limits.stepTimeoutSeconds
  retry := s.retry
  limits := s.limits
  journal := s.journal

/-- The engine of a document. -/
def engineOf (d : Document) (s : Settings) : CommandM m Engine := do
  checkBuilders d
  let snapshots ← ofExcept .faults (Snapshots.ofDocument d)
  let ids ← ofExcept .node (SnowflakeSource.ofNode s.nodeId)
  return {
    snapshots
    runner := runnerOf s
    router := .ofCapacity s.channelCapacity
    jobs := .empty
    store := .empty ids }

def loadEngine (path : Option String) : CommandM m (Engine × Settings) := do
  let (document, settings) ← loadDocument path
  return (← engineOf document settings, settings)

/-! ## Inputs and outputs -/

/-- The value of a part of the command line. -/
def readJson (label text : String) : CommandM m Value :=
  ofOption (.json label) (Value.read? text.toList)

/-- The arguments of an input, null where none are given. -/
def readArgs (args : Option String) : CommandM m Value :=
  match args with
  | none => return .null
  | some text => readJson "args" text

/-- The bytes of an input. -/
def readInput (file : Option String) : CommandM m (List UInt8) := do
  match file with
  | none => Machine.input
  | some path =>
    match ← Machine.contents path with
    | .found bytes => return bytes
    | _ => throw (.unreadableInput path)

/-- Writes a payload: a value as indented JSON on lines of its own, raw bytes as they
are. -/
def printPayload : Payload → CommandM m Unit
  | .parsed v => printLine v.pretty
  | .raw bytes => Machine.write bytes

/-! ## The commands -/

/-- What is told about a run that has ended. -/
def runNote (e : Execution) : String :=
  if e.outcome.success then "[Run " ++ e.run.text ++ " completed successfully]"
  else
    "[Run " ++ e.run.text ++ " failed at step '" ++ e.outcome.failedStep.getD "?" ++ "': " ++
      e.outcome.error.getD "unknown error" ++ "]"

/-- Runs a pipeline. -/
def runPipeline (document : Option String) (pipeline : String) (source : InputSource) :
    CommandM m ExitCode := do
  let (engine, settings) ← loadEngine document
  let args ← readArgs source.args
  let bytes ← readInput source.file
  let initial ← ofExcept .payload (Payload.interpret bytes source.contentType)
  let result ← Machine.carryOut settings (engine.run pipeline args initial)
  let execution ← ofExcept .run (← ofExcept .journal result)
  printPayload execution.outcome.body
  complainLine ("\n" ++ runNote execution)
  return if execution.outcome.success then 0 else 1

/-- The text of a request's error. -/
def requestMessage : RequestError → String
  | .payload error => "Unacceptable request body: " ++ error.message
  | error => error.message.getD ""

/-- Shows the status and the message of a request that has no response. -/
def refuse (status : Nat) (message : String) : CommandM m ExitCode := do
  complainLine ("Status: " ++ Numeral.decimal status)
  complainLine ("Error: " ++ message)
  return 1

/-- Answers a request. -/
def answerRequest (document : Option String) (endpoint : String) (source : InputSource) :
    CommandM m ExitCode := do
  let (engine, settings) ← loadEngine document
  let args ← readArgs source.args
  let body ← readInput source.file
  match ← Machine.carryOut settings (engine.answer endpoint body source.contentType args) with
  | .error fault => refuse 500 fault.message
  | .ok (.error e) => refuse e.status (requestMessage e)
  | .ok (.ok response) =>
    complainLine ("Status: " ++ Numeral.decimal response.status)
    printPayload response.body
    return 0

/-- The event of a source. -/
def readTrigger (source : String) (payload : Value) (user : Option String) :
    CommandM m Trigger := do
  match ← ofExcept .source (SubscriptionSource.parse source) with
  | .custom name => return .custom ⟨name, payload, ← Machine.now⟩
  | .table table kind =>
    match payload with
    | .object key => return .table (.ofChange table key (← Machine.now) user (kind.getD .insert))
    | _ => throw .noKey

/-- Subscribes to endpoints. -/
def subscribeAll (e : Engine) : List String → List Receiver × Engine
  | [] => ([], e)
  | endpoint :: rest =>
    match e.subscribe endpoint with
    | .error _ => subscribeAll e rest
    | .ok (receiver, e) =>
      let (receivers, e) := subscribeAll e rest
      (receiver :: receivers, e)

/-- Carries deliveries out; a run without an outcome delivers nothing. -/
def deliverAll (settings : Settings) :
    List (Dialogue (Option Delivery)) → CommandM m (List Delivery)
  | [] => return []
  | p :: rest => do
    let delivery :=
      match ← Machine.carryOut settings p with
      | .ok delivery => delivery
      | .error _ => none
    return delivery.toList ++ (← deliverAll settings rest)

/-- Shows what a receiver has got. -/
def printReceived (receiver : Receiver) (lost : Nat) (deliveries : List Delivery) :
    CommandM m Unit := do
  let mark := "[" ++ receiver.endpoint ++ "] "
  if lost ≠ 0 then complainLine (mark ++ Numeral.decimal lost ++ " deliveries dropped")
  deliveries.forM fun d => do
    printLine (mark ++ "run " ++ d.run.text ++ " success=" ++
      if d.outcome.success then "true" else "false")
    printPayload d.body

/-- Shows what all receivers have got. -/
def printAll (router : Router) : List Receiver → CommandM m Unit
  | [] => return ()
  | receiver :: rest => do
    let ((lost, deliveries), router) := router.receive receiver
    printReceived receiver lost deliveries
    printAll router rest

/-- Publishes an event and shows its deliveries. -/
def publishEvent (document : Option String) (source payload : String) (user : Option String) :
    CommandM m ExitCode := do
  let (engine, settings) ← loadEngine document
  let trigger ← readTrigger source (← readJson "payload" payload) user
  let (receivers, engine) :=
    subscribeAll engine ((engine.model.bindingsFor trigger).map (·.endpoint))
  let deliveries ← deliverAll settings (engine.deliveries trigger)
  if deliveries.isEmpty then
    printLine ("No subscription endpoint matched '" ++ source ++ "'")
  else printAll (engine.router.handAll deliveries).2 receivers
  return 0

end Command

end PipelineEngine
