import PipelineEngine.Engine.Basic
import PipelineEngine.Settings.File

/-!
# Machines

Where commands are carried out: a place with files, an environment, standard streams and
a clock.  Commands are written against the class `Machine`, so they are the same on a
real machine and on a simulated one.
-/

namespace PipelineEngine

/-- What came of looking into a file or a directory. -/
inductive Lookup (α : Type) where
  | missing
  /-- It is there, but cannot be read. -/
  | unreadable
  | found (a : α)
deriving Repr, Inhabited, DecidableEq

/-- What is told of a launcher of containers that is not installed. -/
def missingLauncher (launcher : String) : String :=
  "failed to spawn '" ++ launcher ++ "': No such file or directory (os error 2)"

/-- A journal that could not be started. -/
structure JournalFault where
  directory : String
  reason : String
deriving Repr, Inhabited, DecidableEq

def JournalFault.message (e : JournalFault) : String :=
  "Run journal failed: Cannot create run directory " ++ e.directory ++ ": " ++ e.reason

/-- Something that commands can be carried out on. -/
class Machine (m : Type → Type) where
  /-- The value of a variable of the environment. -/
  environment : String → m (Option String)
  /-- The working directory. -/
  directory : m String
  /-- Whether there is a file or a directory of a name. -/
  hasFile : String → m Bool
  /-- The absolute path of a file or a directory that is there. -/
  canonical? : String → m (Option String)
  /-- The contents of a file. -/
  contents : String → m (Lookup (List UInt8))
  /-- The names of the directories in a directory. -/
  directories : String → m (Lookup (List String))
  /-- Makes a directory and those that it lies in, and says whether it is there now. -/
  makeDirectory : String → m Bool
  /-- All of the standard input. -/
  input : m (List UInt8)
  /-- Writes to the standard output. -/
  write : List UInt8 → m Unit
  /-- Writes to the standard error. -/
  complain : String → m Unit
  /-- The time of day. -/
  now : m Instant
  /-- Carries a dialogue out.  Journals are kept where the settings say; one that cannot be
  kept ends the dialogue at the entry that could not be written, without a result. -/
  carryOut {α : Type} : Settings → Dialogue α → m (Except JournalFault α)
  /-- Runs the jobs of an engine until somebody interrupts it. -/
  serve : Settings → Engine → m Unit

end PipelineEngine
