import PipelineEngine.Payload.Basic
import PipelineEngine.Provider.Failure
import PipelineEngine.Provider.Reference
import PipelineEngine.Text.Path

/-!
# Containers

The provider that runs steps in containers, through a launcher program with the command
line of `docker`.  A value is piped into the container as JSON; raw bytes are staged in a
file that is mounted into it.  What the container prints is the step's output.

Credentials are used in one place: the password is the standard input of the login call.
-/

namespace PipelineEngine

/-! ## Launching

What is asked of the program that launches containers, and what it answers.  A launch is
a tree: it comes to a result, or calls the launcher and goes on with what the call came
to.  So all that is ever said to the launcher can be read off it (`calls`).
-/

namespace Container

/-- One call of the launcher. -/
structure LaunchCall where
  args : List String
  /-- What is written to the standard input, which is closed when there is nothing. -/
  stdin : Option (List UInt8)
  /-- The contents of the payload file that the call mounts. -/
  payload : Option (List UInt8)
deriving Repr, Inhabited, DecidableEq

/-- How a call of the launcher ended. -/
inductive LaunchEnd where
  /-- The payload file could not be written, and nothing was started. -/
  | notStaged (reason : String)
  /-- There was no such program. -/
  | notStarted (reason : String)
  /-- Waiting for the end of the program failed. -/
  | notAwaited (reason : String)
  /-- Writing its standard input failed, and not because it was closed. -/
  | notWritten (reason : String)
  /-- What writes the standard input broke off. -/
  | writerLost (reason : String)
  /-- The program ended with a code, or without one when a signal ended it. -/
  | exited (code : Option Int) (stdout stderr : List UInt8)
deriving Repr, Inhabited, DecidableEq

/-- A computation that calls the launcher. -/
inductive Launch (α : Type) where
  | done (a : α)
  | call (c : LaunchCall) (next : LaunchEnd → Launch α)

namespace Launch

variable {α β : Type}

/-- One launch after another. -/
def bind : Launch α → (α → Launch β) → Launch β
  | .done a, f => f a
  | .call c next, f => .call c fun e => (next e).bind f

instance : Monad Launch where
  pure := .done
  bind := bind

/-- The result of a launch, when the launcher's call number `n` ends as given. -/
def result (answers : Nat → LaunchEnd) : Nat → Launch α → α
  | _, .done a => a
  | n, .call _ next => (next (answers n)).result answers (n + 1)

/-- The calls of a launch in order. -/
def calls (answers : Nat → LaunchEnd) : Nat → Launch α → List LaunchCall
  | _, .done _ => []
  | n, .call c next => c :: (next (answers n)).calls answers (n + 1)

end Launch

end Container

/-! ## The provider -/

/-- The provider that runs steps in containers. -/
structure ContainerProvider where
  /-- The launcher program. -/
  launcher : String
  /-- The images of builders, by builder name. -/
  builders : Fields ImageRef
  /-- The directory that the paths of custom providers start from. -/
  directory : String
  /-- Where raw payloads are staged. -/
  payloadFile : String
deriving Repr, Inhabited

namespace Container

/-- Where a raw payload appears in a container. -/
def payloadMount : String := "/stepline/payload"

/-- The exit code with which a launcher reports a failure of its own. -/
def launcherErrorExit : Int := 125

/-- A result of launching for a step. -/
abbrev Attempt (α : Type) := Launch (Except ProviderFailure α)

/-- The text of what a program printed, without blanks at its ends. -/
def printed (bytes : List UInt8) : String := trimBlanks (Utf8.decodeLossy bytes)

/-- The host of an image's registry, if its name starts with one. -/
def registryHost? (image : String) : Option String :=
  match Text.cut? ['/'] image.toList with
  | none => none
  | some (first, _) =>
    let host := String.ofList first
    if '.' ∈ first ∨ ':' ∈ first ∨ host = "localhost" then some host else none

/-- Whether a byte is a blank of ASCII. -/
def isBlankByte (b : UInt8) : Bool := b = 32 || b = 9 || b = 10 || b = 12 || b = 13

/-- The payload that a container printed: nothing, a value, or else raw bytes. -/
def parseOutput (stdout : List UInt8) : Payload :=
  if stdout.all isBlankByte then .empty
  else
    match Value.readBytes? stdout with
    | some v => .parsed v
    | none => .raw stdout

/-- The output that came with a failed run: a value that is not null. -/
def failureOutput : Payload → Option Value
  | .parsed .null => none
  | .parsed v => some v
  | .raw _ => none

/-- The message of a failed run. -/
def failureMessage (code : Option Int) (stderr : List UInt8) : String :=
  let message := printed stderr
  if message = "" then "exit code " ++ Numeral.signed (code.getD (-1)) else message

/-- What a run that has ended means for its step. -/
def runResult (step : String) (code : Option Int) (stdout stderr : List UInt8) :
    Except ProviderFailure Payload :=
  if code = some 0 then .ok (parseOutput stdout)
  else if code = some launcherErrorExit then .error (.unreachable step (printed stderr))
  else
    .error (.failed step code (failureMessage code stderr) (failureOutput (parseOutput stdout)))

end Container

open Container

namespace ContainerProvider

/-- Calls the launcher and goes on with the code and the output of the call. -/
def launch {α : Type} (p : ContainerProvider) (step : String) (c : LaunchCall)
    (next : Option Int → List UInt8 → List UInt8 → Attempt α) : Attempt α :=
  let unreachable (message : String) : Attempt α := .done (.error (.unreachable step message))
  .call c fun
    | .notStaged reason => unreachable ("failed to stage raw payload: " ++ reason)
    | .notStarted reason => unreachable ("failed to spawn '" ++ p.launcher ++ "': " ++ reason)
    | .notAwaited reason => unreachable ("failed to wait for container: " ++ reason)
    | .notWritten reason => unreachable ("failed to write stdin: " ++ reason)
    | .writerLost reason => unreachable ("stdin writer failed: " ++ reason)
    | .exited code stdout stderr => next code stdout stderr

/-- Logs in to the registry of an image that carries credentials, and goes on. -/
def login {α : Type} (p : ContainerProvider) (step : String) (image : ImageRef) (next : Attempt α) :
    Attempt α :=
  match image.credentials with
  | none => next
  | some c =>
    let args :=
      ["login", "--username", c.username, "--password-stdin"] ++ (registryHost? image.image).toList
    p.launch step ⟨args, some (Utf8.encode c.password), none⟩ fun code _ stderr =>
      if code = some 0 then next
      else .done (.error (.unreachable step ("registry login failed: " ++ printed stderr)))

/-- Builds the image of a directory and goes on with it. -/
def build {α : Type} (p : ContainerProvider) (step directory : String)
    (next : String → Attempt α) : Attempt α :=
  let directory := if directory = "" then "." else directory
  p.launch step ⟨["build", "-q", directory], none, none⟩ fun code stdout stderr =>
    if code = some 0 then next (printed stdout)
    else .done (.error (.failed step code ("image build failed: " ++ printed stderr) none))

/-- The call that runs an image on an input. -/
def runCall (p : ContainerProvider) (args : List String) (image : String) :
    Payload → LaunchCall
  | .parsed v =>
    ⟨["run", "--rm", "-i"] ++ args ++ [image], some (Payload.bytes (.parsed v)), none⟩
  | .raw bytes =>
    ⟨["run", "--rm", "-i", "-v", p.payloadFile ++ ":" ++ payloadMount ++ ":ro", "-e",
      "STEPLINE_PAYLOAD=" ++ payloadMount] ++ args ++ [image], none, some bytes⟩

/-- Runs an image on an input. -/
def run (p : ContainerProvider) (step : String) (args : List String) (image : String)
    (input : Payload) : Attempt Payload :=
  p.launch step (p.runCall args image input) fun code stdout stderr =>
    .done (runResult step code stdout stderr)

/-- The arguments that mount the sources of a custom provider. -/
def workspaceArgs (p : ContainerProvider) (path : String) : List String :=
  ["-v", Path.join p.directory path ++ ":/workspace:ro", "-w", "/workspace"]

/-- Runs a step. -/
def invoke (p : ContainerProvider) (step : String) (r : ProviderRef) (input : Payload) :
    Attempt Payload :=
  match r with
  | .image image => p.login step image (p.run step [] image.reference input)
  | .dockerfile directory => p.build step directory fun image => p.run step [] image input
  | .custom builder path =>
    match p.builders.get? builder with
    | none => .done (.error (.unsupported step r.display))
    | some image =>
      p.login step image (p.run step (p.workspaceArgs path) image.reference input)
  | .builtin _ => .done (.error (.unsupported step r.display))

/-- Checks that the launcher works; the error is a message. -/
def healthCheck (p : ContainerProvider) : Launch (Except String Unit) :=
  .call ⟨["version"], none, none⟩ fun
    | .exited code _ stderr =>
      if code = some 0 then .done (.ok ())
      else .done (.error ("Container backend health check failed: " ++ printed stderr))
    | _ => .done (.error ("Failed to run '" ++ p.launcher ++ " version'"))

end ContainerProvider

end PipelineEngine
