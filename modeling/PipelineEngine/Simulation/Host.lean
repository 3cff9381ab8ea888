import PipelineEngine.Journal.Lines
import PipelineEngine.Simulation.FileTree
import PipelineEngine.Simulation.World
import PipelineEngine.Text.Utf8

/-!
# Simulated machines

A machine whose files are a tree and whose streams are texts.  No launcher of containers
is installed on it.  Dialogues get every answer at once; the clock goes on by a little
with every look at it and by the length of every pause.
-/

namespace PipelineEngine.Simulation

/-- A simulated machine. -/
structure Host where
  files : FileTree
  /-- The working directory, an absolute path. -/
  directory : String
  environment : Fields String
  input : List UInt8
  /-- What was written to the standard output. -/
  output : List UInt8
  /-- What was written to the standard error. -/
  complaints : String
  time : Instant
  /-- The number of identifiers given out. -/
  serial : Nat
deriving Inhabited

namespace Host

/-- A machine with the given files on which nothing has happened. -/
def start (files : FileTree) (directory : String) (time : Instant) : Host :=
  ⟨files, directory, [], [], [], "", time, 0⟩

/-- The machine with another environment and input, and with nothing written yet. -/
def prepared (h : Host) (environment : Fields String) (input : List UInt8) : Host :=
  { h with environment, input, output := [], complaints := "" }

/-- A path as seen from the working directory. -/
def absolute (h : Host) (path : String) : String :=
  if path = "" then "" else Path.join h.directory path

/-- The time that one look at the clock takes, in nanoseconds. -/
def clockStep : Nat := 1000

/-- Lets some nanoseconds pass. -/
def elapse (w : World) (nanos : Nat) : World := { w with time := w.time.plusNanos nanos }

/-- The end of a pause, which the deadline of the run may cut short. -/
def pauseEnd (w : World) (ms : Nat) (deadline : Option Nat) : Wake × World :=
  let stop := w.timer + ms
  let (wake, stop) :=
    match deadline with
    | some d => if d < stop then (Wake.expired, max d w.timer) else (.elapsed, stop)
    | none => (.elapsed, stop)
  (wake, elapse { w with timer := stop } ((stop - w.timer) * 1000000))

/-- Answers a request at once. -/
def answer : (r : Request) → World → r.Answer × World
  | .uuid, w => w.uuid
  | .now, w => (w.time, elapse w clockStep)
  | .timer, w => (w.timer, w)
  | .isCancelled, w => (false, w)
  | .invoke call _ _, w =>
    let (_, reply, w) := w.call call
    (reply.getD .timedOut, w)
  | .pause ms deadline, w => pauseEnd w ms deadline
  | .record entry, w => ((), w.write entry)
  | .emit _, w => ((), w)

/-- What calls of the launcher come to: there is none. -/
def noLauncher (launcher : String) : ScriptedResponse :=
  ⟨false, 0, .unreachable (missingLauncher launcher)⟩

/-- The surroundings of dialogues. -/
def world (h : Host) (s : Settings) : World :=
  { World.start h.time [(World.externalReference, [noLauncher s.launcher])] .caller with
    serial := h.serial }

/-- Writes an event to the end of its run's journal. -/
def writeEvent (h : Host) (s : Settings) (e : RunEvent) : Except JournalFault Host :=
  let directory := Path.join s.runsDirectory e.run.text
  match h.files.makeDirectory (h.absolute directory) with
  | .error fault => .error ⟨directory, fault.message⟩
  | .ok (files, place) =>
    let old :=
      match files.entry? (Journal.fileName :: place) with
      | some (.file contents) => contents
      | _ => []
    let line := Utf8.encode (e.line ++ "\n")
    .ok { h with files := files.put (Journal.fileName :: place) (.file (old ++ line)) }

/-- Carries a dialogue out and writes the journals of its runs. -/
def carryOut {α : Type} (s : Settings) (p : Dialogue α) (h : Host) :
    Except JournalFault α × Host :=
  let (a, w) := p.runWith answer (h.world s)
  let h := { h with time := w.time, serial := w.serial }
  match w.journal.reverse.foldlM (·.writeEvent s ·) h with
  | .ok h => (.ok a, h)
  | .error fault => (.error fault, h)

end Host

instance : Machine (StateM Host) where
  environment name := return (← get).environment.get? name
  directory := return (← get).directory
  hasFile path := return (← get).files.find ((← get).absolute path) matches .found _
  canonical? path := do
    let h ← get
    match h.files.find (h.absolute path) with
    | .found place => return some (FileTree.pathOf place)
    | _ => return none
  contents path := return (← get).files.contents ((← get).absolute path)
  directories path := return (← get).files.directories ((← get).absolute path)
  makeDirectory path := do
    let h ← get
    match h.files.makeDirectory (h.absolute path) with
    | .ok (files, _) =>
      set { h with files }
      return true
    | .error _ => return false
  input := return (← get).input
  write bytes := modify fun h => { h with output := h.output ++ bytes }
  complain text := modify fun h => { h with complaints := h.complaints ++ text }
  now := do
    let h ← get
    set { h with time := h.time.plusNanos Host.clockStep }
    return h.time
  carryOut settings p := fun h => h.carryOut settings p
  serve _ _ := return ()

end PipelineEngine.Simulation
