import PipelineEngine.Document.Step
import PipelineEngine.Expression.Evaluate
import PipelineEngine.Expression.Template
import PipelineEngine.Value.Basic

/-!
# Step inputs

How the input of a step and the body of a response are built from mappings: an
object that holds the mapped values at their targets and nothing else.
-/

namespace PipelineEngine

namespace Mapping

/-- The value of a mapping's source in a context. -/
def evaluate (m : Mapping) (ctx : Context) : Except ExpressionError Value := do
  let e ← Expr.parseMapping m.source
  (e.evaluate ctx).mapError .unresolved

/-- Writes the values of the mappings at their targets, one after another. -/
def writeAll (ctx : Context) : List Mapping → Fields Value → Except ExpressionError (Fields Value)
  | [], fields => .ok fields
  | m :: rest, fields => do
    let v ← m.evaluate ctx
    writeAll ctx rest (fields.write m.target v)

end Mapping

/-- The input of a step: what its mappings write, or without mappings the latest
output, or else the initial payload. -/
def Step.buildInput (s : Step) (ctx : Context) (initial : Payload) :
    Except ExpressionError Payload :=
  if s.mappings.isEmpty then .ok (ctx.lastOutput?.getD initial)
  else (Mapping.writeAll ctx s.mappings []).map fun fields => .parsed (.object fields)

end PipelineEngine
