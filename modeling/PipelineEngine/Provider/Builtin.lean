import PipelineEngine.Digest.Sha256
import PipelineEngine.Payload.Basic
import PipelineEngine.Provider.Failure
import PipelineEngine.Text.Blank
import PipelineEngine.Text.Case

/-!
# Built-in functions

The step functions that the engine runs itself, addressed as `builtin:<name>`.
The current time is the caller's to give.
-/

namespace PipelineEngine.Builtin

/-- The names of the functions. -/
def names : List String :=
  ["identity", "null", "sha256", "lowercase", "uppercase", "trim", "now", "fail", "merge"]

/-- The hexadecimal digest of a payload: of the text of a string, of raw bytes,
and of the compact JSON of anything else. -/
def sha256 : Payload → String
  | .parsed (.string s) => Sha256.hexDigest (Utf8.encode s)
  | other => Sha256.hexDigest other.bytes

/-- Applies a function to a string, to every string field of an object, or to raw
bytes that are text; anything else stays as it is. -/
def mapStrings (f : String → String) : Payload → Payload
  | .parsed (.string s) => .parsed (.string (f s))
  | .parsed (.object fields) =>
    .parsed (.object (fields.map fun (name, v) =>
      match v with
      | .string s => (name, .string (f s))
      | other => (name, other)))
  | .raw bytes =>
    match Utf8.decode? bytes with
    | some s => .parsed (.string (f s))
    | none => .raw bytes
  | other => other

/-- The failure that a payload asks for: its field `message` is the message, and
the payload itself the structured output. -/
def fail (step : String) (input : Payload) : ProviderFailure :=
  let value := input.value
  let message := ((value.field? "message").bind Value.string?).getD "explicit failure"
  .failed step none message (if value.isNull then none else some value)

/-- One field in the merge of an object: the fields of an inner object, or else
the field itself. -/
def mergeField (acc : Fields Value) (name : String) : Value → Fields Value
  | .object inner => acc.extend inner
  | other => acc.insert name other

/-- Shallow merge: the objects of an array from left to right, or the
object-valued fields of an object in order of names, its other fields kept. -/
def merge : Value → Value
  | .array items =>
    .object (items.foldl (fun (acc : Fields Value) item =>
      match item with
      | .object fields => acc.extend fields
      | _ => acc) [])
  | .object fields =>
    .object (fields.foldl (fun (acc : Fields Value) (name, v) => mergeField acc name v) [])
  | other => other

/-- Calls a function for a step.  `now` is the text of the current time. -/
def call (now step function : String) (input : Payload) : Except ProviderFailure Payload :=
  match function with
  | "identity" => .ok input
  | "null" => .ok (.parsed .null)
  | "sha256" => .ok (.parsed (.string (sha256 input)))
  | "lowercase" => .ok (mapStrings lowerCase input)
  | "uppercase" => .ok (mapStrings upperCase input)
  | "trim" => .ok (mapStrings trimBlanks input)
  | "now" => .ok (.parsed (.string now))
  | "fail" => .error (fail step input)
  | "merge" => .ok (.parsed (merge input.value))
  | other => .error (.unsupported step ("builtin:" ++ other))

end PipelineEngine.Builtin
