import PipelineEngine.Simulation.World

/-!
# Scripts

The written form of what scripted providers do: for each provider a list of responses.
-/

namespace PipelineEngine

/-- The payload that a value describes: null, a parsed value, or raw bytes written in
hexadecimal. -/
def Payload.ofValue? : Value → Option Payload
  | .null => some .empty
  | v =>
    match v.field? "parsed", v.field? "raw" with
    | some w, _ => some (.parsed w)
    | none, some (.string s) => (Numeral.unhex? s.toList).map .raw
    | _, _ => none

namespace Simulation

namespace ScriptedResponse

/-- A field that is there and not null. -/
def field? (v : Value) (name : String) : Option Value :=
  match v.field? name with
  | some .null => none
  | found => found

/-- Whether a field is set. -/
def flag (v : Value) (name : String) : Bool := ((v.field? name).bind Value.bool?).getD false

/-- The failure that a value describes. -/
def failOf (v : Value) : ScriptedEnd :=
  let code :=
    match v.field? "exit_code" with
    | some (.number (.int n)) => some n
    | _ => none
  .fail (((v.field? "message").bind Value.string?).getD "") code (v.field? "output")

/-- What a response comes to.  A hang goes before everything else, then come an
unreachable provider, a failure and an output. -/
def endOf? (v : Value) : Option ScriptedEnd :=
  if flag v "hang" then some .hang
  else
    match (v.field? "unreachable").bind Value.string?, field? v "fail", v.field? "out" with
    | some message, _, _ => some (.unreachable message)
    | none, some failure, _ => some (failOf failure)
    | none, none, some output => (Payload.ofValue? output).map .output
    | none, none, none => some .echo

/-- The response that a value describes. -/
def ofValue? (v : Value) : Option ScriptedResponse := do
  let delayMs ←
    match field? v "delay_ms" with
    | none => some 0
    | some delay => delay.nat?
  return ⟨flag v "cancel", delayMs, ← endOf? v⟩

end ScriptedResponse

namespace Script

/-- The scripts that the fields of a value describe, each under its provider. -/
def allOfValue? (v : Value) : Option (Fields Script) := do
  (← v.object?).mapM fun (provider, script) => do
    return (provider, ← (← script.array?).mapM ScriptedResponse.ofValue?)

end Script

end Simulation

end PipelineEngine
