import PipelineEngine.Container.Basic
import PipelineEngine.Report.Forms
import PipelineEngine.Simulation.World

/-!
# Descriptions of calls

The calls of scripted providers and of the launcher of containers.
-/

namespace PipelineEngine

/-- A call of a scripted provider, with or without its time. -/
def Simulation.CallRecord.toValue (timed : Bool) (c : CallRecord) : Value :=
  .ofPairs ((if timed then [("at_ms", .nat c.atMs)] else []) ++
    [("step", .string c.step), ("provider", .string c.provider), ("input", c.input.toValue)])

namespace Container

/-- The text of bytes in hexadecimal. -/
def hexValue (bytes : List UInt8) : Value := .string (Numeral.hex bytes)

/-- A call of the launcher.  A health check says nothing of its input. -/
def LaunchCall.toValue (health : Bool) (c : LaunchCall) : Value :=
  .ofPairs [
    ("args", .array (c.args.map .string)),
    ("stdin", if health then .null else hexValue (c.stdin.getD [])),
    ("payload", .ofOption (c.payload.map hexValue))]

end Container

end PipelineEngine
