import PipelineEngine.Document.Mapping
import PipelineEngine.Shape.Record
import PipelineEngine.Word

/-!
# Retry policies, steps and pipelines

A pipeline is a sequence of steps, each of which may be tried more than once.
-/

namespace PipelineEngine

/-! ## Retry policies

How often a step is tried and how long to wait between attempts.  The wait grows
by a factor with each attempt and never exceeds a maximum.
-/

/-- How a step is retried after a transient failure. -/
structure RetryPolicy where
  /-- The number of attempts, the first one included. -/
  maxAttempts : Nat
  initialDelayMs : Nat
  maxDelayMs : Nat
  backoff : Float
deriving Repr, Inhabited, DecidableEq

namespace RetryPolicy

/-- The policy of a step that names none. -/
def standard : RetryPolicy := ⟨3, 200, 5000, 2.0⟩

/-- `x ^ n` by repeated squaring. -/
def squarings : Nat → Float → Nat → Float → Float
  | 0, _, _, acc => acc
  | fuel + 1, x, n, acc =>
    let acc := if n % 2 = 1 then acc * x else acc
    if n / 2 = 0 then acc else squarings fuel (x * x) (n / 2) acc

/-- `x ^ n` for an exponent of 32 bits: the power of the magnitude, and its
reciprocal for a negative exponent. -/
def power (x : Float) (n : Int) : Float :=
  let p := squarings 32 x n.natAbs 1.0
  if n < 0 then 1.0 / p else p

/-- The smaller of two floats; NaN gives way to the other. -/
def smaller (x y : Float) : Float :=
  if x.isNaN then y else if y.isNaN then x else if x < y then x else y

/-- The wait in milliseconds after a failed attempt.  The exponent of the factor
has 32 bits with a sign. -/
def delay (p : RetryPolicy) (attempt : Nat) : Nat :=
  if attempt ≤ 1 then min p.initialDelayMs p.maxDelayMs
  else
    let exponent := ((attempt - 1 : Nat) : Int).bmod (Word.bound 32)
    let grown := p.initialDelayMs.toUInt64.toFloat * power p.backoff exponent
    (smaller grown p.maxDelayMs.toUInt64.toFloat).toUInt64.toNat

/-- Whether another attempt follows a failed one. -/
def retriesAfter (p : RetryPolicy) (attempt : Nat) : Bool := attempt < p.maxAttempts

def ofNode? (node : Node) : Option RetryPolicy := do
  let r ← Record.read ["max_attempts", "initial_delay_ms", "max_delay_ms", "backoff_multiplier"] node
  return {
    maxAttempts := ← r.defaulted "max_attempts" standard.maxAttempts (Node.asNat (Word.bound 32))
    initialDelayMs := ← r.defaulted "initial_delay_ms" standard.initialDelayMs (Node.asNat (Word.bound 64))
    maxDelayMs := ← r.defaulted "max_delay_ms" standard.maxDelayMs (Node.asNat (Word.bound 64))
    backoff := ← r.defaulted "backoff_multiplier" standard.backoff Node.asFloat }

def toValue (p : RetryPolicy) : Value :=
  .ofPairs [
    ("max_attempts", .nat p.maxAttempts),
    ("initial_delay_ms", .nat p.initialDelayMs),
    ("max_delay_ms", .nat p.maxDelayMs),
    ("backoff_multiplier", .ofFloat p.backoff)]

end RetryPolicy

/-! ## Steps and pipelines

A step names a provider and says how its input is built.  A pipeline is a named
sequence of steps, with an optional parser for initial payloads that are raw
bytes.
-/

/-- A step of a pipeline. -/
structure Step where
  name : String
  provider : String
  mappings : List Mapping
  timeoutSeconds : Option Nat
  retry : Option RetryPolicy
deriving Repr, Inhabited, DecidableEq

namespace Step

/-- The timeout of the step in seconds. -/
def timeout (s : Step) (default : Nat) : Nat := s.timeoutSeconds.getD default

/-- The names of a step's fields, in their order. -/
def fieldNames : List String :=
  ["name", "provider", "mappings", "timeout_seconds", "retry_policy"]

def ofRecord? (r : Record) : Option Step := do
  return {
    name := ← r.required "name" Node.asString
    provider := ← r.required "provider" Node.asString
    mappings := ← r.defaulted "mappings" [] (Node.asList Mapping.ofNode?)
    timeoutSeconds := ← r.optional "timeout_seconds" (Node.asNat (Word.bound 64))
    retry := ← r.optional "retry_policy" RetryPolicy.ofNode? }

def ofNode? (node : Node) : Option Step :=
  (Record.read fieldNames node).bind ofRecord?

/-- The fields of a step as they are written. -/
def pairs (s : Step) : List (String × Value) := [
  ("name", .string s.name),
  ("provider", .string s.provider),
  ("mappings", .array (s.mappings.map Mapping.toValue)),
  ("timeout_seconds", .ofOption (s.timeoutSeconds.map .nat)),
  ("retry_policy", .ofOption (s.retry.map RetryPolicy.toValue))]

def toValue (s : Step) : Value := .ofPairs s.pairs

end Step

/-- A named sequence of steps. -/
structure Pipeline where
  name : String
  steps : List Step
  parser : Option Step
deriving Repr, Inhabited, DecidableEq

namespace Pipeline

/-- The first step of a name. -/
def step? (p : Pipeline) (name : String) : Option Step := p.steps.find? (·.name = name)

/-- The position of the first step of a name. -/
def stepIndex? (p : Pipeline) (name : String) : Option Nat := p.steps.findIdx? (·.name = name)

def ofNode? (node : Node) : Option Pipeline := do
  let r ← Record.read ["name", "steps", "parser"] node
  return ⟨← r.required "name" Node.asString, ← r.defaulted "steps" [] (Node.asList Step.ofNode?),
    ← r.optional "parser" Step.ofNode?⟩

def toValue (p : Pipeline) : Value :=
  .ofPairs [
    ("name", .string p.name),
    ("steps", .array (p.steps.map Step.toValue)),
    ("parser", .ofOption (p.parser.map Step.toValue))]

end Pipeline

end PipelineEngine
