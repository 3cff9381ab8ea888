import PipelineEngine.Shape.Record
import PipelineEngine.Word

/-!
# Safety limits

What one run may use.  A run that would go beyond a limit is halted and never retried.
Hooks count as steps.
-/

namespace PipelineEngine

/-- The limits of a run. -/
structure SafetyLimits where
  maxSteps : Nat
  /-- The size of the largest payload that may enter or leave a step. -/
  maxPayloadBytes : Nat
  /-- The timeout of a step that names none. -/
  stepTimeoutSeconds : Nat
  /-- The time that a run may take. -/
  runTimeoutSeconds : Nat
deriving Repr, Inhabited, DecidableEq

/-- Which side of a step a payload is on. -/
inductive PayloadDirection where
  | input
  | output
deriving Repr, Inhabited, DecidableEq

def PayloadDirection.name : PayloadDirection → String
  | .input => "input"
  | .output => "output"

/-- The limit that a run would go beyond. -/
inductive SafetyViolation where
  | maxSteps (actual limit : Nat)
  | maxPayloadBytes (direction : PayloadDirection) (actual limit : Nat)
  | runTimeout (elapsedSeconds limitSeconds : Nat)
deriving Repr, Inhabited, DecidableEq

def SafetyViolation.message : SafetyViolation → String
  | .maxSteps actual limit =>
    "Step limit reached: " ++ Numeral.decimal actual ++ " of " ++ Numeral.decimal limit ++
      " steps already executed"
  | .maxPayloadBytes direction actual limit =>
    "Step " ++ direction.name ++ " of " ++ Numeral.decimal actual ++ " bytes exceeds the " ++
      Numeral.decimal limit ++ " byte payload limit"
  | .runTimeout elapsed limit =>
    "Run timeout: " ++ Numeral.decimal elapsed ++ "s elapsed, limit is " ++
      Numeral.decimal limit ++ "s"

/-- What a run has used. -/
structure Usage where
  /-- The steps that completed. -/
  steps : Nat
  inputBytes : Nat
  outputBytes : Nat
deriving Repr, Inhabited, DecidableEq

namespace Usage

def none : Usage := ⟨0, 0, 0⟩

/-- The usage after one more step. -/
def record (u : Usage) (inputBytes outputBytes : Nat) : Usage :=
  ⟨u.steps + 1, u.inputBytes + inputBytes, u.outputBytes + outputBytes⟩

end Usage

namespace SafetyLimits

/-- The limits of a run for which none are set. -/
def standard : SafetyLimits := ⟨50, 10 * 1024 * 1024, 30, 300⟩

/-- Whether a payload of a size may pass. -/
def checkPayload (l : SafetyLimits) (direction : PayloadDirection) (size : Nat) :
    Except SafetyViolation Unit :=
  if size ≤ l.maxPayloadBytes then .ok ()
  else .error (.maxPayloadBytes direction size l.maxPayloadBytes)

/-- Whether a run may start another step, some seconds after its start. -/
def check (l : SafetyLimits) (u : Usage) (elapsedSeconds : Nat) : Except SafetyViolation Unit :=
  if l.maxSteps ≤ u.steps then .error (.maxSteps u.steps l.maxSteps)
  else if l.runTimeoutSeconds ≤ elapsedSeconds then
    .error (.runTimeout elapsedSeconds l.runTimeoutSeconds)
  else .ok ()

def ofNode? (node : Node) : Option SafetyLimits := do
  let r ← Record.read
    ["max_steps", "max_payload_bytes", "step_timeout_seconds", "run_timeout_seconds"] node
  return {
    maxSteps := ← r.defaulted "max_steps" standard.maxSteps (Node.asNat (Word.bound 32))
    maxPayloadBytes :=
      ← r.defaulted "max_payload_bytes" standard.maxPayloadBytes (Node.asNat (Word.bound 64))
    stepTimeoutSeconds :=
      ← r.defaulted "step_timeout_seconds" standard.stepTimeoutSeconds (Node.asNat (Word.bound 64))
    runTimeoutSeconds :=
      ← r.defaulted "run_timeout_seconds" standard.runTimeoutSeconds (Node.asNat (Word.bound 64)) }

def toValue (l : SafetyLimits) : Value :=
  .ofPairs [
    ("max_steps", .nat l.maxSteps),
    ("max_payload_bytes", .nat l.maxPayloadBytes),
    ("step_timeout_seconds", .nat l.stepTimeoutSeconds),
    ("run_timeout_seconds", .nat l.runTimeoutSeconds)]

end SafetyLimits

end PipelineEngine
