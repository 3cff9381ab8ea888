import PipelineEngine.Model.Basic
import PipelineEngine.Run.Runner

/-!
# The job board

When jobs fire and which of them are running.  A tick collects the jobs that are due and
moves each to its next fire after the tick, so fires that were missed count as one.  A
fire whose job is still running is skipped.

A job is known to the board from the first tick that finds it enabled to the first tick
that does not, and the mark that says that it is running belongs to that time: a job
that comes back gets a new one.  A new model makes every job look for its next fire
afresh.
-/

namespace PipelineEngine

/-- A job that is due. -/
structure JobTick where
  job : String
  pipeline : String
  fireAt : Instant
deriving Repr, Inhabited, DecidableEq

/-- What the board knows of a job. -/
structure JobState where
  nextFire : Option Instant
  /-- The mark that is set while the job is running. -/
  mark : Nat
  /-- The epoch of the model that the next fire was looked up in. -/
  epoch : Option Nat
deriving Repr, Inhabited, DecidableEq

/-- The jobs, and the marks that are set. -/
structure JobBoard where
  states : Fields JobState
  /-- The marks of runs that have not ended. -/
  running : List Nat
  /-- The number of marks made. -/
  marks : Nat
deriving Repr, Inhabited, DecidableEq

namespace JobBoard

/-- A board without jobs. -/
def empty : JobBoard := ⟨[], [], 0⟩

/-- The enabled jobs of a model. -/
def enabled (m : Model) : List Job := m.document.jobs.filter (·.enabled)

/-- Forgets the jobs that are not enabled. -/
def retain (b : JobBoard) (m : Model) : JobBoard :=
  { b with states := b.states.filter fun (name, _) => (enabled m).any (·.name = name) }

/-- The state of a job; one that is new to the board gets a mark. -/
def stateOf (b : JobBoard) (job : String) : JobState × JobBoard :=
  match b.states.get? job with
  | some s => (s, b)
  | none => (⟨none, b.marks, none⟩, { b with marks := b.marks + 1 })

/-- The state of a job after its next fire was looked up, if the model is new to it. -/
def scheduled (s : JobState) (schedule : Schedule) (epoch : Nat) (now : Instant) :
    Except SpanOverflow JobState :=
  if s.epoch = some epoch then .ok s
  else do return { s with epoch := some epoch, nextFire := ← schedule.fireAtOrAfter now }

/-- The fire of a job that is due, and its state after that. -/
def due (s : JobState) (schedule : Schedule) (now : Instant) :
    Except SpanOverflow (Option Instant × JobState) :=
  match s.nextFire with
  | none => .ok (none, s)
  | some fireAt =>
    if now < fireAt then .ok (none, s)
    else do return (some fireAt, { s with nextFire := ← schedule.nextFire now })

/-- What a tick does for one job. -/
def tickJob (b : JobBoard) (m : Model) (now : Instant) (j : Job) :
    Except SpanOverflow (Option JobTick × JobBoard) :=
  match m.schedule? j.name with
  | none => .ok (none, b)
  | some schedule => do
    let (s, b) := b.stateOf j.name
    let s ← scheduled s schedule m.epoch now
    let (fire, s) ← due s schedule now
    return (fire.map (⟨j.name, j.pipeline, ·⟩), { b with states := b.states.insert j.name s })

/-- What a tick does for some jobs, one after the other. -/
def tickJobs (m : Model) (now : Instant) :
    List Job → JobBoard → Except SpanOverflow (List JobTick × JobBoard)
  | [], b => .ok ([], b)
  | j :: rest, b => do
    let (tick, b) ← b.tickJob m now j
    let (ticks, b) ← tickJobs m now rest b
    return (tick.toList ++ ticks, b)

/-- Collects the jobs that are due and moves them to their next fires. -/
def tick (b : JobBoard) (m : Model) (now : Instant) :
    Except SpanOverflow (List JobTick × JobBoard) :=
  tickJobs m now (enabled m) (b.retain m)

/-- The earliest next fire of all jobs. -/
def nextDue (b : JobBoard) : Option Instant :=
  (b.states.filterMap (·.2.nextFire)).foldl (fun best t =>
    match best with
    | none => some t
    | some u => some (if t < u then t else u)) none

/-- Marks a job as running; none when it is unknown or still running. -/
def start? (b : JobBoard) (job : String) : Option (Nat × JobBoard) :=
  match b.states.get? job with
  | none => none
  | some s =>
    if s.mark ∈ b.running then none else some (s.mark, { b with running := s.mark :: b.running })

/-- Takes back the mark of a run that has ended. -/
def finish (b : JobBoard) (mark : Nat) : JobBoard := { b with running := b.running.filter (· ≠ mark) }

end JobBoard

namespace JobTick

/-- The arguments of the run of a job. -/
def args (t : JobTick) : Value :=
  .ofPairs [("job", .string t.job), ("fire_at", .string t.fireAt.offsetText)]

/-- The run of a job. -/
def run (t : JobTick) (m : Model) (r : Runner) : Dialogue (Except RunError Execution) :=
  r.run m t.pipeline t.args .empty

end JobTick

end PipelineEngine
