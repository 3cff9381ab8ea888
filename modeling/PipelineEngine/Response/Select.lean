import PipelineEngine.Document.Endpoint
import PipelineEngine.Response.Yield
import PipelineEngine.Run.Input

/-!
# Selecting responses

The rules of an endpoint are tried in order, and the first one whose condition is
absent or true shapes the response.  A condition over something that the outcome
lacks does not hold.  The selected rule may take items from the outcome and map
fields of it.
-/

namespace PipelineEngine

/-- What is sent back for a request or an event. -/
structure Response where
  status : Nat
  body : Payload
deriving Inhabited

/-- Why no response was shaped.  Every cause is a fault of the configuration. -/
inductive SelectError where
  | noMatch (endpoint : String)
  | expression (endpoint : String) (status : Nat) (error : ExpressionError)
  | yield (endpoint : String) (status : Nat) (error : YieldError)

namespace SelectError

def message : SelectError → String
  | .noMatch endpoint =>
    "No response rule of endpoint '" ++ endpoint ++ "' matched the pipeline outcome"
  | .expression endpoint status error =>
    "Endpoint '" ++ endpoint ++ "' response " ++ Numeral.decimal status ++ ": " ++ error.message
  | .yield endpoint status error =>
    "Endpoint '" ++ endpoint ++ "' response " ++ Numeral.decimal status ++ ": " ++ error.message

/-- The status of the answer when no response was shaped. -/
def status (_ : SelectError) : Nat := 500

end SelectError

namespace ResponseRule

/-- Whether the rule holds in a context with the outcome in view. -/
def holds (r : ResponseRule) (ctx : Context) : Except ExpressionError Bool :=
  match r.condition with
  | none => .ok true
  | some condition => do
    let e ← Expr.parseCondition condition
    match e.test ctx with
    | .ok b => .ok b
    | .error _ => .ok false

/-- Shapes the response of a rule that holds. -/
def shape (endpoint : String) (r : ResponseRule) (o : Outcome) (ctx : Context) :
    Except SelectError Response := do
  let selected ←
    match r.selection with
    | none => pure none
    | some spec =>
      match Yield.parse spec with
      | .ok y => pure (some (y.apply o.value))
      | .error e => .error (.yield endpoint r.status e)
  if r.mappings.isEmpty then
    match selected with
    | some v => return ⟨r.status, .parsed v⟩
    | none => return ⟨r.status, o.body⟩
  else
    let ctx :=
      match selected with
      | some v => ctx.withBody v o.success
      | none => ctx
    match Mapping.writeAll ctx r.mappings [] with
    | .ok fields => return ⟨r.status, .parsed (.object fields)⟩
    | .error e => .error (.expression endpoint r.status e)

/-- The first of the rules that holds. -/
def firstHolding (endpoint : String) (ctx : Context) :
    List ResponseRule → Except SelectError ResponseRule
  | [] => .error (.noMatch endpoint)
  | r :: rest =>
    match r.holds ctx with
    | .error e => .error (.expression endpoint r.status e)
    | .ok true => .ok r
    | .ok false => firstHolding endpoint ctx rest

end ResponseRule

/-- The response of an endpoint's rules to an outcome.  Conditions and mappings see
the context of the run that produced it. -/
def Response.select (endpoint : String) (rules : List ResponseRule) (o : Outcome) (ctx : Context) :
    Except SelectError Response := do
  let ctx := ctx.withOutcome o
  let rule ← ResponseRule.firstHolding endpoint ctx rules
  rule.shape endpoint o ctx

end PipelineEngine
