import PipelineEngine.Engine.Basic
import PipelineEngine.Simulation.Session

/-!
# An engine in simulated surroundings

A session in which deliveries and the runs of jobs are tasks.  Whoever publishes an event
or changes a row waits for all deliveries of it; a job that was started goes on beside
everything else until somebody waits for it.
-/

namespace PipelineEngine.Simulation

/-- An engine and what came out of its tasks. -/
structure Site where
  engine : Engine
  /-- The reports on the deliveries of the last event published, in the order in which
  they were finished. -/
  reports : List PublishReport
  /-- The tasks of the jobs started, in order. -/
  jobs : List Nat
  /-- The results of jobs that have ended, each under the number of its job, until
  somebody takes them. -/
  results : List (Nat × Except RunError Execution)
deriving Inhabited

namespace Site

/-- An engine that has done nothing. -/
def start (e : Engine) : Site := ⟨e, [], [], []⟩

/-- Hands a delivery out. -/
def hand (s : Site) (d : Delivery) : Site :=
  let (report, router) := s.engine.router.hand d
  { s with engine := { s.engine with router }, reports := s.reports ++ [report] }

/-- The task of a delivery. -/
def deliveryTask (p : Dialogue (Option Delivery)) : Owner × Dialogue (Site → Site) :=
  (.router, do
    match ← p with
    | some d => return (·.hand d)
    | none => return id)

/-- The tasks that deliver an event. -/
def deliveryTasks (s : Site) (trigger : Trigger) : List (Owner × Dialogue (Site → Site)) :=
  (s.engine.deliveries trigger).map deliveryTask

/-- Delivers the events of the store. -/
def sink : Sink Site := fun s event => (s, s.deliveryTasks (.table event))

/-- Keeps the result of a job, whose mark is taken back. -/
def finishJob (s : Site) (number mark : Nat) (result : Except RunError Execution) : Site :=
  { s with
    engine := { s.engine with jobs := s.engine.jobs.finish mark }
    results := (number, result) :: s.results }

end Site

/-- A session with an engine. -/
abbrev EngineSession := Session Site

namespace EngineSession

/-- The engine. -/
def engine (s : EngineSession) : Engine := s.state.engine

/-- Replaces the engine. -/
def withEngine (s : EngineSession) (e : Engine) : EngineSession :=
  { s with state := { s.state with engine := e } }

/-- Runs a dialogue on behalf of an owner. -/
def carryOut {α : Type} (s : EngineSession) (owner : Owner) (p : Dialogue α) :
    Option α × EngineSession :=
  s.run Site.sink owner p

/-- Runs a dialogue of the caller, who may have cancelled it beforehand. -/
def ask {α : Type} (s : EngineSession) (cancelled : Bool) (p : Dialogue α) :
    Option α × EngineSession :=
  let world := s.world.renew .caller
  carryOut { s with world := if cancelled then world.cancel .caller else world } .caller p

/-- Carries out an operation on the rows. -/
def change {α : Type} (s : EngineSession) (p : Dialogue (Store × α)) : Option α × EngineSession :=
  match s.carryOut .store p with
  | (some (store, a), s) => (some a, s.withEngine { s.engine with store })
  | (none, s) => (none, s)

/-- Publishes an event and waits for its deliveries. -/
def publish (s : EngineSession) (trigger : Trigger) : List PublishReport × EngineSession :=
  let s : EngineSession := { s with state := { s.state with reports := [] } }
  let (numbers, s) := s.spawnAll (s.state.deliveryTasks trigger)
  let s : EngineSession := s.join Site.sink numbers
  (s.state.reports, s)

/-- Starts the run of a job that is due; none when the fire is skipped. -/
def dispatch (s : EngineSession) (t : JobTick) : Option Nat × EngineSession :=
  match s.engine.dispatch? t with
  | none => (none, s)
  | some (mark, p, engine) =>
    let number := s.state.jobs.length
    let (task, s) := (s.withEngine engine).spawn .jobs do
      let result ← p
      return (·.finishJob number mark result)
    (some number, { s with state := { s.state with jobs := s.state.jobs ++ [task] } })

/-- Waits for a job and takes its result; none when there is no such job or its result
has been taken. -/
def joinJob (s : EngineSession) (number : Nat) :
    Option (Except RunError Execution) × EngineSession :=
  match s.state.jobs[number]? with
  | none => (none, s)
  | some task =>
    let s : EngineSession := s.join Site.sink [task]
    (s.state.results.lookup number,
      { s with state :=
          { s.state with results := s.state.results.filter (·.1 ≠ number) } })

/-- Cancels all that runs on behalf of an owner. -/
def cancel (s : EngineSession) (owner : Owner) : EngineSession :=
  { s with world := s.world.cancel owner }

end EngineSession

end PipelineEngine.Simulation
