import PipelineEngine.Document.Step
import PipelineEngine.Run.Limits
import PipelineEngine.Text.Path
import PipelineEngine.Word
import PipelineEngine.Yaml.Read

/-!
# Settings and configuration files

The settings of the commands, and the files that change them.
-/

namespace PipelineEngine

/-! ## Settings

What the commands work with: where state is kept, the limits of runs and the capacity of
channels.  There is a default for every setting but the home, which lies below that of
the user.
-/

/-- The settings of the commands. -/
structure Settings where
  /-- Where state is kept. -/
  home : String
  /-- The document of commands that are given none. -/
  document : Option String
  /-- The file that the settings come from, if there is one. -/
  configFile : Option String
  limits : SafetyLimits
  retry : RetryPolicy
  /-- The number of deliveries that a receiver can fall behind. -/
  channelCapacity : Nat
  /-- The longest rest between two ticks of the job board. -/
  maxPollSeconds : Nat
  /-- The number of this node in snowflakes. -/
  nodeId : Nat
  /-- Whether runs are journaled. -/
  journal : Bool
  /-- The program that launches containers. -/
  launcher : String
deriving Repr, Inhabited, DecidableEq

namespace Settings

/-- The settings of a home when nothing else is set. -/
def ofHome (home : String) : Settings where
  home := home
  document := none
  configFile := none
  limits := .standard
  retry := .standard
  channelCapacity := 64
  maxPollSeconds := 30
  nodeId := 0
  journal := true
  launcher := "docker"

/-- Where the journals of runs are kept. -/
def runsDirectory (s : Settings) : String := Path.join s.home "runs"

end Settings

/-! ## Configuration files

A configuration file sets some of the settings and leaves the others alone.  Its paths
are seen from the directory that it lies in; how they are followed there is up to the
reader of files (`ConfigFile.apply`).
-/

/-- The limits that a file sets. -/
structure LimitChanges where
  maxSteps : Option Nat
  maxPayloadBytes : Option Nat
  stepTimeoutSeconds : Option Nat
  runTimeoutSeconds : Option Nat
deriving Repr, Inhabited, DecidableEq

namespace LimitChanges

def ofNode? (node : Node) : Option LimitChanges := do
  let r ← Record.read
    ["max_steps", "max_payload_bytes", "step_timeout_seconds", "run_timeout_seconds"] node
  return {
    maxSteps := ← r.nullable "max_steps" (Node.asNat (Word.bound 32))
    maxPayloadBytes := ← r.nullable "max_payload_bytes" (Node.asNat (Word.bound 64))
    stepTimeoutSeconds := ← r.nullable "step_timeout_seconds" (Node.asNat (Word.bound 64))
    runTimeoutSeconds := ← r.nullable "run_timeout_seconds" (Node.asNat (Word.bound 64)) }

def apply (c : LimitChanges) (l : SafetyLimits) : SafetyLimits where
  maxSteps := c.maxSteps.getD l.maxSteps
  maxPayloadBytes := c.maxPayloadBytes.getD l.maxPayloadBytes
  stepTimeoutSeconds := c.stepTimeoutSeconds.getD l.stepTimeoutSeconds
  runTimeoutSeconds := c.runTimeoutSeconds.getD l.runTimeoutSeconds

end LimitChanges

/-- What a file sets of all that concerns a running engine. -/
structure EngineChanges where
  channelCapacity : Option Nat
  maxPollSeconds : Option Nat
  nodeId : Option Nat
  journal : Option Bool
  launcher : Option String
deriving Repr, Inhabited, DecidableEq

namespace EngineChanges

def ofNode? (node : Node) : Option EngineChanges := do
  let r ← Record.read
    ["channel_capacity", "max_poll_seconds", "node_id", "journal", "launcher"] node
  return {
    channelCapacity := ← r.nullable "channel_capacity" (Node.asNat (Word.bound 64))
    maxPollSeconds := ← r.nullable "max_poll_seconds" (Node.asNat (Word.bound 64))
    nodeId := ← r.nullable "node_id" (Node.asNat (Word.bound 16))
    journal := ← r.nullable "journal" Node.asBool
    launcher := ← r.nullable "launcher" Node.asString }

def apply (c : EngineChanges) (s : Settings) : Settings :=
  { s with
    channelCapacity := c.channelCapacity.getD s.channelCapacity
    maxPollSeconds := c.maxPollSeconds.getD s.maxPollSeconds
    nodeId := c.nodeId.getD s.nodeId
    journal := c.journal.getD s.journal
    launcher := c.launcher.getD s.launcher }

end EngineChanges

/-- The paths that a file sets, as they are written. -/
structure PathChanges where
  home : Option String
  document : Option String
deriving Repr, Inhabited, DecidableEq

def PathChanges.ofNode? (node : Node) : Option PathChanges := do
  let r ← Record.read ["home", "document"] node
  return {
    home := ← r.nullable "home" Node.asString
    document := ← r.nullable "document" Node.asString }

/-- A configuration file. -/
structure ConfigFile where
  version : Option String
  paths : PathChanges
  limits : Option LimitChanges
  retry : Option RetryPolicy
  engine : Option EngineChanges
deriving Repr, Inhabited, DecidableEq

namespace ConfigFile

def ofNode? (node : Node) : Option ConfigFile := do
  let r ← Record.read ["version", "paths", "safety", "retry", "runtime"] node
  return {
    version := ← r.optional "version" Node.asString
    paths := ← r.defaulted "paths" ⟨none, none⟩ PathChanges.ofNode?
    limits := ← r.optional "safety" LimitChanges.ofNode?
    retry := ← r.optional "retry" RetryPolicy.ofNode?
    engine := ← r.optional "runtime" EngineChanges.ofNode? }

/-- The configuration file of a text. -/
def ofText? (text : String) : Option ConfigFile := (Yaml.read? text.toList).bind ofNode?

/-- The settings with what a file sets; `home` and `document` are where its paths
lead. -/
def apply (f : ConfigFile) (home document : Option String) (s : Settings) : Settings :=
  let s := { s with
    home := home.getD s.home
    document := document.or s.document
    limits := (f.limits.map (·.apply s.limits)).getD s.limits
    retry := f.retry.getD s.retry }
  (f.engine.map (·.apply s)).getD s

end ConfigFile

end PipelineEngine
