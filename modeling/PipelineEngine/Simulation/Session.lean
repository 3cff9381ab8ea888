import PipelineEngine.Simulation.World
import PipelineEngine.Word

/-!
# Sessions

A dialogue that runs in simulated surroundings, with tasks beside it that take turns.
Only one of them runs at a time, from one wait to the next.

A session goes on in turns (`Session.turn`).  The tasks that can go on run one after the
other, in the order in which their waits ended.  When no task can go on it is the turn of
the session's own dialogue, and when that has to wait as well, the clock jumps to the
next moment at which somebody's wait ends.
-/

namespace PipelineEngine.Simulation

/-- A dialogue beside the session's own.  What it comes to changes the state that all
share. -/
structure Task (σ : Type) where
  number : Nat
  owner : Owner
  dialogue : Dialogue (σ → σ)

/-- A task before a wait. -/
structure Sleeper (σ : Type) where
  number : Nat
  owner : Owner
  wait : Wait (σ → σ)

/-- A session: the surroundings, the state that its tasks share, and the tasks. -/
structure Session (σ : Type) where
  world : World
  state : σ
  /-- The tasks that can go on, the next one first. -/
  queue : List (Task σ)
  /-- The tasks that cannot, the one that has waited longest first. -/
  sleepers : List (Sleeper σ)
  /-- The number of tasks that there have been. -/
  started : Nat
  /-- When owners will be cancelled. -/
  cancellations : List (Nat × Owner)

/-- Who gets to know of an event: the change that it makes to the state at once, and the
tasks that deliver it. -/
abbrev Sink (σ : Type) := σ → TableEvent → σ × List (Owner × Dialogue (σ → σ))

namespace Session

variable {σ α : Type}

/-- A session without tasks. -/
def start (world : World) (state : σ) : Session σ := ⟨world, state, [], [], 0, []⟩

/-- The tasks that have not come to an end. -/
def running (s : Session σ) : List Nat := s.queue.map (·.number) ++ s.sleepers.map (·.number)

/-- Adds a task to the end of the queue. -/
def spawn (s : Session σ) (owner : Owner) (dialogue : Dialogue (σ → σ)) : Nat × Session σ :=
  (s.started,
    { s with queue := s.queue ++ [⟨s.started, owner, dialogue⟩], started := s.started + 1 })

/-- Adds tasks to the end of the queue. -/
def spawnAll (s : Session σ) : List (Owner × Dialogue (σ → σ)) → List Nat × Session σ
  | [] => ([], s)
  | (owner, dialogue) :: rest =>
    let (number, s) := s.spawn owner dialogue
    let (numbers, s) := s.spawnAll rest
    (number :: numbers, s)

/-- Cancels the owners whose time has come. -/
def cancelDue (s : Session σ) : Session σ :=
  let (due, later) := s.cancellations.partition fun (t, _) => t ≤ s.world.timer
  { s with
    world := due.foldl (fun w (_, owner) => w.cancel owner) s.world
    cancellations := later }

/-- The task of a sleeper whose wait is over. -/
def wakeUp? (s : Session σ) (sleeper : Sleeper σ) : Option (Task σ) :=
  (sleeper.wait.poll? sleeper.owner s.world s.running).map (⟨sleeper.number, sleeper.owner, ·⟩)

/-- Moves the tasks whose waits are over to the queue. -/
def wake (s : Session σ) : Session σ :=
  { s with
    queue := s.queue ++ s.sleepers.filterMap (wakeUp? s)
    sleepers := s.sleepers.filter fun sleeper => (wakeUp? s sleeper).isNone }

/-- Lets a task that has left the queue run to its end or to its next wait. -/
def runTask (s : Session σ) (task : Task σ) : Session σ :=
  match task.dialogue.advance task.owner s.world with
  | (.done change, w) => { s with world := w, state := change s.state }
  | (.waiting wait, w) =>
    { s with world := w, sleepers := s.sleepers ++ [⟨task.number, task.owner, wait⟩] }

/-- Lets the session's own dialogue run to its end or to its next wait.  An event that
it emits is delivered by tasks, whose ends it then waits for. -/
def runMain (sink : Sink σ) (owner : Owner) (p : Dialogue α) (s : Session σ) :
    Stage α × Session σ :=
  match p.advance owner s.world with
  | (.waiting (.delivery event next), w) =>
    let (state, tasks) := sink s.state event
    let (numbers, s) := { s with world := w, state := state }.spawnAll tasks
    (.waiting (.tasks numbers next), s)
  | (stage, w) => (stage, { s with world := w })

/-- The next moment at which a wait can end by itself or an owner is cancelled. -/
def nextAlarm? (s : Session σ) (wait : Wait α) : Option Nat :=
  let times := wait.alarms ++ s.sleepers.flatMap (·.wait.alarms) ++ s.cancellations.map (·.1)
  (times.filter (s.world.timer < ·)).min?

/-- The session's own dialogue after one turn.  It is none when nobody can ever go on. -/
def turn (sink : Sink σ) (owner : Owner) (wait : Wait α) (s : Session σ) :
    Option (Stage α) × Session σ :=
  let s := s.cancelDue.wake
  match s.queue with
  | task :: rest => (some (.waiting wait), { s with queue := rest }.runTask task)
  | [] =>
    match wait.poll? owner s.world s.running with
    | some p => let (stage, s) := s.runMain sink owner p; (some stage, s)
    | none =>
      match s.nextAlarm? wait with
      | none => (none, s)
      | some t =>
        let s := { s with world := { s.world with timer := t } }
        match wait.poll? owner s.world s.running with
        | some p => let (stage, s) := s.runMain sink owner p; (some stage, s)
        | none => (some (.waiting wait), s)

/-- At most some number of turns, until the session's own dialogue comes to its end. -/
def turns (sink : Sink σ) (owner : Owner) : Nat → Stage α → Session σ → Option α × Session σ
  | _, .done a, s => (some a, s)
  | 0, .waiting _, s => (none, s)
  | n + 1, .waiting wait, s =>
    match s.turn sink owner wait with
    | (some stage, s) => turns sink owner n stage s
    | (none, s) => (none, s)

/-- The number of turns after which a session is given up. -/
def patience : Nat := Word.bound 60

/-- Runs a dialogue in a session. -/
def run (s : Session σ) (sink : Sink σ) (owner : Owner) (p : Dialogue α) :
    Option α × Session σ :=
  let (stage, s) := s.runMain sink owner p
  turns sink owner patience stage s

/-- Lets tasks run to their ends. -/
def join (s : Session σ) (sink : Sink σ) (numbers : List Nat) : Session σ :=
  (turns sink .store patience (.waiting (.tasks numbers (.done ()))) s).2

end Session

end PipelineEngine.Simulation
