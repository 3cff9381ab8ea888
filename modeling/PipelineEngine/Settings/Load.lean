import PipelineEngine.Machine
import PipelineEngine.Settings.File
import PipelineEngine.Text.Utf8

/-!
# Loading the settings

The settings are those of the nearest configuration file, looked for in the working
directory and the directories above it.  The environment has the last word on home and
document.
-/

namespace PipelineEngine

/-- Why there are no settings. -/
inductive SettingsError where
  | unreadable (path : String)
  | malformed (path : String)
deriving Repr, Inhabited, DecidableEq

def SettingsError.message : SettingsError → String
  | .unreadable path => "Failed to read config file: " ++ path
  | .malformed path => "Failed to parse config file: " ++ path

namespace Settings

/-- The directory of configuration files, and of state in the user's home. -/
def directoryName : String := ".stepline"

/-- The path of a configuration file in a directory. -/
def configPath (directory : String) : String :=
  Path.join (Path.join directory directoryName) "config.yaml"

/-- A directory and those above it, the nearest first. -/
def ancestors (directory : String) : List String :=
  let parts := (Path.parts directory).filter (· ≠ "")
  (List.range (parts.length + 1)).reverse.map fun n => Path.ofParts (parts.take n)

variable {m : Type → Type} [Monad m] [Machine m]

/-- The first of some directories that has a configuration file. -/
def findConfig? : List String → m (Option String)
  | [] => return none
  | directory :: rest => do
    if ← Machine.hasFile (configPath directory) then return some directory
    else findConfig? rest

/-- The configuration file in a directory. -/
def readConfig (directory : String) : m (Except SettingsError ConfigFile) := do
  let path := configPath directory
  match ← Machine.contents path with
  | .found bytes =>
    match Utf8.decode? bytes with
    | none => return .error (.unreadable path)
    | some text =>
      match ConfigFile.ofText? text with
      | none => return .error (.malformed path)
      | some file => return .ok file
  | _ => return .error (.unreadable path)

/-- Where a path of a configuration file leads, seen from the file's directory. -/
def followPath (base path : String) : m String := do
  let joined := Path.join base path
  if Path.isAbsolute path then return joined
  else return (← Machine.canonical? joined).getD joined

/-- Where a path leads, if there is one. -/
def followPath? (base : String) : Option String → m (Option String)
  | none => return none
  | some path => do return some (← followPath base path)

/-- The settings of a home and of the configuration file, if there is one. -/
def ofConfig (home : String) : m (Except SettingsError Settings) := do
  match ← findConfig? (ancestors (← Machine.directory)) with
  | none => return .ok (ofHome home)
  | some directory =>
    match ← readConfig directory with
    | .error e => return .error e
    | .ok file =>
      let base := Path.join directory directoryName
      let fileHome ← followPath? base file.paths.home
      let document ← followPath? base file.paths.document
      let settings := file.apply fileHome document (ofHome home)
      return .ok { settings with configFile := some (configPath directory) }

/-- The user's home. -/
def userHome : m String := do
  let home := (← Machine.environment "HOME").getD ""
  return if home = "" then "/" else home

/-- Loads the settings. -/
def load : m (Except SettingsError Settings) := do
  match ← ofConfig (Path.join (← userHome) directoryName) with
  | .error e => return .error e
  | .ok settings =>
    let home ← Machine.environment "STEPLINE_HOME"
    let document ← Machine.environment "STEPLINE_DOCUMENT"
    return .ok { settings with
      home := home.getD settings.home
      document := document.or settings.document }

end Settings

end PipelineEngine
