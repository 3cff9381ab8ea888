import PipelineEngine.Engine.Request
import PipelineEngine.Job.Board
import PipelineEngine.Model.Snapshots
import PipelineEngine.Store.Basic
import PipelineEngine.Subscription.Router

/-!
# The engine

Everything that runs pipelines: requests, events, jobs and the transforms of columns,
all of them with one runner and with the model that is in force when they start.
-/

namespace PipelineEngine

/-- An engine. -/
structure Engine where
  snapshots : Snapshots
  runner : Runner
  router : Router
  jobs : JobBoard
  store : Store
  /-- What writes the numbers of generated identifiers as short texts. -/
  [shortener : Shortener]
deriving Inhabited

namespace Engine

/-- The engine of a document, with channels of a capacity. -/
def ofDocument (d : Document) (runner : Runner) (ids : SnowflakeSource) (capacity : Nat) :
    Except (List ConfigFault) Engine := do
  return {
    snapshots := ← Snapshots.ofDocument d
    runner := runner
    router := .ofCapacity capacity
    jobs := .empty
    store := .empty ids }

/-- The model in force. -/
def model (e : Engine) : Model := e.snapshots.current

/-- Replaces the model by that of another document. -/
def reload (e : Engine) (d : Document) : Except (List ConfigFault) Engine := do
  return { e with snapshots := ← e.snapshots.reload d }

/-- What operations on the store are carried out with. -/
def rules (e : Engine) : Store.Rules :=
  { model := e.model, runner := e.runner, shortener := e.shortener }

/-- Answers a request. -/
def answer (e : Engine) (key : String) (body : List UInt8) (contentType : Option String)
    (args : Value) : Dialogue (Except RequestError Response) :=
  e.model.answer e.runner key body contentType args

/-- Runs a pipeline by its name. -/
def run (e : Engine) (pipeline : String) (args : Value) (initial : Payload) :
    Dialogue (Except RunError Execution) :=
  e.runner.run e.model pipeline args initial

/-- The deliveries of an event. -/
def deliveries (e : Engine) (trigger : Trigger) : List (Dialogue (Option Delivery)) :=
  e.model.deliveries e.runner trigger

/-- Subscribes to an endpoint. -/
def subscribe (e : Engine) (endpoint : String) : Except RouteError (Receiver × Engine) := do
  let (receiver, router) ← e.router.subscribe e.model endpoint
  return (receiver, { e with router })

/-- Collects the jobs that are due. -/
def tick (e : Engine) (now : Instant) : Except SpanOverflow (List JobTick × Engine) := do
  let (ticks, jobs) ← e.jobs.tick e.model now
  return (ticks, { e with jobs })

/-- The run of a job that is due, with its mark; none when the fire is skipped. -/
def dispatch? (e : Engine) (t : JobTick) :
    Option (Nat × Dialogue (Except RunError Execution) × Engine) := do
  let (mark, jobs) ← e.jobs.start? t.job
  return (mark, t.run e.model e.runner, { e with jobs })

end Engine

end PipelineEngine
