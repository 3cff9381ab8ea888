import PipelineEngine.Command.Execute
import PipelineEngine.Provider.Builtin
import PipelineEngine.Word
import Std.Time.DateTime.Timestamp

/-!
# The program

The machine that the program runs on, and its entry point.  Everything that a command
decides is decided elsewhere; here files are read and written, and dialogues get their
answers from the real clock and the real files.  No containers are launched: whoever
needs one hears that there is no launcher.
-/

namespace PipelineEngine

/-- The time of day. -/
def currentTime : IO Instant := do
  let t ← Std.Time.Timestamp.now
  return ⟨t.val.second.val, t.val.nano.val.toNat⟩

/-- A new random identifier. -/
def randomUuid : IO Uuid := do
  let bytes ← IO.getRandomBytes 16
  return .ofRandom (bytes.toList.foldl (fun n b => n * 256 + b.toNat) 0)

/-- What came of looking at a file or a directory. -/
def lookUp {α : Type} (look : IO α) : IO (Lookup α) := do
  try
    return .found (← look)
  catch
    | .noFileOrDirectory .. => return .missing
    | _ => return .unreadable

/-- Whether an action comes to its end. -/
def succeeds {α : Type} (act : IO α) : IO Bool := do
  try
    let _ ← act
    return true
  catch _ => return false

/-- The names of the directories in a directory. -/
def directoryNames (path : String) : IO (List String) := do
  let entries ← (← IO.FS.realPath path).readDir
  let directories ← entries.filterM fun entry => entry.path.isDir
  return (directories.map (·.fileName)).toList

/-! ## Carrying dialogues out -/

/-- Writes an event to the end of its run's journal. -/
def writeEvent (s : Settings) (e : RunEvent) : IO (Except JournalFault Unit) := do
  let directory := Path.join s.runsDirectory e.run.text
  try
    IO.FS.createDirAll directory
    let file ← IO.FS.Handle.mk (Path.join directory Journal.fileName) .append
    file.putStr (e.line ++ "\n")
    return .ok ()
  catch error => return .error ⟨directory, toString error⟩

/-- Calls a provider. -/
def callProvider (s : Settings) (call : Call) : IO Reply := do
  match call.backend with
  | .builtin function =>
    match Builtin.call (← currentTime).offsetText call.step.name function call.input with
    | .ok output => return .returned output
    | .error failure => return .failed failure
  | _ => return .failed (.unreachable call.step.name (missingLauncher s.launcher))

/-- Lets some milliseconds pass. -/
def rest (ms : Nat) : IO Unit := IO.sleep (min ms (Word.bound 32 - 1)).toUInt32

/-- Lets some milliseconds pass, or as many as there are until a deadline. -/
def pauseFor (ms : Nat) (deadline : Option Nat) : IO Wake := do
  let now ← IO.monoMsNow
  match deadline.filter (· < now + ms) with
  | some stop =>
    rest (stop - now)
    return .expired
  | none =>
    rest ms
    return .elapsed

/-- Answers a request of a dialogue. -/
def answerRequest (s : Settings) : (r : Request) → IO (Except JournalFault r.Answer)
  | .uuid => return .ok (← randomUuid)
  | .now => return .ok (← currentTime)
  | .timer => return .ok (← IO.monoMsNow)
  | .isCancelled => return .ok false
  | .invoke call _ _ => return .ok (← callProvider s call)
  | .pause ms deadline => return .ok (← pauseFor ms deadline)
  | .record entry => do writeEvent s (entry.stamp (← randomUuid) (← currentTime))
  | .emit _ => return .ok ()

/-- Carries a dialogue out. -/
def carryOut {α : Type} (s : Settings) : Dialogue α → IO (Except JournalFault α)
  | .done a => return .ok a
  | .ask request next => do
    match ← answerRequest s request with
    | .ok answer => carryOut s (next answer)
    | .error fault => return .error fault

/-! ## Running jobs -/

/-- Starts the runs of jobs that are due, beside everything else; the mark of each is
put into a list when it has ended. -/
def startJobs (s : Settings) (ended : IO.Ref (List Nat)) (e : Engine) : List JobTick → IO Engine
  | [] => return e
  | tick :: more => do
    match e.dispatch? tick with
    | none => startJobs s ended e more
    | some (mark, run, e) =>
      let _ ← IO.asTask do
        let _ ← carryOut s run
        ended.modify (mark :: ·)
      startJobs s ended e more

/-- How long to rest after a tick, in milliseconds. -/
def restAfter (s : Settings) (nextDue : Option Instant) (now : Instant) : Nat :=
  let longest := s.maxPollSeconds * 1000
  match nextDue with
  | none => longest
  | some due =>
    let span := due.millisSince now
    if span < 0 then longest else min span.toNat longest

/-- Runs the jobs of an engine until the program is interrupted. -/
partial def serveJobs (s : Settings) (ended : IO.Ref (List Nat)) (e : Engine) : IO Unit := do
  let marks ← ended.swap []
  let e := { e with jobs := marks.foldl (fun b mark => b.finish mark) e.jobs }
  match e.tick (← currentTime) with
  | .error _ => return ()
  | .ok (due, e) =>
    let e ← startJobs s ended e due
    rest (restAfter s e.jobs.nextDue (← currentTime))
    serveJobs s ended e

/-! ## The machine -/

instance : Machine IO where
  environment name := IO.getEnv name
  directory := return (← IO.currentDir).toString
  hasFile path := succeeds (IO.FS.realPath path)
  canonical? path := do
    match ← lookUp (IO.FS.realPath path) with
    | .found found => return some found.toString
    | _ => return none
  contents path := lookUp do return (← IO.FS.readBinFile path).toList
  directories path := lookUp (directoryNames path)
  makeDirectory path := succeeds (IO.FS.createDirAll path)
  input := do
    let stdin ← IO.getStdin
    if ← stdin.isTty then return [] else return (← stdin.readBinToEnd).toList
  write bytes := do
    let stdout ← IO.getStdout
    stdout.write ⟨bytes.toArray⟩
    stdout.flush
  complain text := do (← IO.getStderr).putStr text
  now := currentTime
  carryOut settings dialogue := carryOut settings dialogue
  serve settings engine := do serveJobs settings (← IO.mkRef []) engine

end PipelineEngine

def main (words : List String) : IO UInt32 := PipelineEngine.Command.perform words
