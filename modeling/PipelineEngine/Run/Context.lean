import PipelineEngine.Payload.Basic

/-!
# Outcomes and execution contexts

What a run comes to, and what its expressions can see on the way there.
-/

namespace PipelineEngine

/-! ## Outcomes

The result of a pipeline run that came to an end.  A failure is a result like any
other, so that response rules can route it: its body is an object whose field
`success` is false.
-/

/-- The result of one pipeline run. -/
structure Outcome where
  success : Bool
  /-- The final output on success, `success: false` with more fields on failure. -/
  body : Payload
  /-- The step that halted the run. -/
  failedStep : Option String
  error : Option String
deriving Inhabited

namespace Outcome

/-- The outcome of a run that reached its end. -/
def succeeded (body : Payload) : Outcome := ⟨true, body, none, none⟩

/-- The fields of a failure body: the object that the step gave along with its
failure, or else the error text and whatever else the step gave. -/
def failureFields (error : String) : Option Value → Fields Value
  | some (.object fields) => fields
  | some .null | none => Fields.ofList [("error", .string error)]
  | some other => Fields.ofList [("error", .string error), ("output", other)]

/-- The outcome of a run that `step` halted. -/
def failed (step error : String) (output : Option Value) : Outcome :=
  ⟨false, .parsed (.object ((failureFields error output).insert "success" (.bool false))),
    some step, some error⟩

/-- The body as a value. -/
def value (o : Outcome) : Value := o.body.value

end Outcome

/-! ## Execution contexts

What expressions can address while a pipeline runs and after it: the arguments,
the environment, the outputs of the steps so far and, once there is one, the
outcome.  Outputs are only ever appended.  Explicit steps take positions; hooks
can be addressed by name only.
-/

/-- The output of a step that has run. -/
structure RecordedStep where
  name : String
  output : Payload
  /-- Hooks take no position. -/
  hook : Bool
deriving Inhabited

/-- The outcome that expressions see. -/
structure OutcomeView where
  body : Value
  success : Bool
deriving Inhabited

/-- What expressions are evaluated against. -/
structure Context where
  args : Value
  env : Fields String
  steps : List RecordedStep
  outcome : Option OutcomeView
deriving Inhabited

namespace Context

/-- A context in which nothing has run. -/
def start (args : Value) (env : Fields String) : Context := ⟨args, env, [], none⟩

/-- Appends the output of a step. -/
def record (ctx : Context) (name : String) (output : Payload) (hook : Bool) : Context :=
  { ctx with steps := ctx.steps ++ [⟨name, output, hook⟩] }

/-- The context with an outcome in view. -/
def withOutcome (ctx : Context) (o : Outcome) : Context :=
  { ctx with outcome := some ⟨o.value, o.success⟩ }

/-- The context with another body in view. -/
def withBody (ctx : Context) (body : Value) (success : Bool) : Context :=
  { ctx with outcome := some ⟨body, success⟩ }

/-- The output of the latest step of a name. -/
def output? (ctx : Context) (name : String) : Option Payload :=
  (ctx.steps.reverse.find? fun s => s.name = name).map (·.output)

/-- The steps that take positions. -/
def explicit (ctx : Context) : List RecordedStep :=
  ctx.steps.filter fun s => !s.hook

/-- The output of the explicit step at a position. -/
def outputAt? (ctx : Context) (position : Nat) : Option Payload :=
  ctx.explicit[position]?.map (·.output)

/-- The output of the latest step, hooks included. -/
def lastOutput? (ctx : Context) : Option Payload :=
  ctx.steps.getLast?.map (·.output)

/-- The position that the next explicit step will take. -/
def position (ctx : Context) : Nat := ctx.explicit.length

end Context

end PipelineEngine
