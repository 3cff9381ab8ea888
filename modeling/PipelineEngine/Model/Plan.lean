import PipelineEngine.Document.Basic
import PipelineEngine.Document.Column
import PipelineEngine.Expression.Syntax
import PipelineEngine.Expression.Template
import PipelineEngine.Provider.Reference
import PipelineEngine.Response.Yield
import PipelineEngine.Schedule.Frequency
import PipelineEngine.Trigger.Basic

/-!
# Faults of configurations and of plans

What can be wrong with a document, and what of it concerns a sequence of steps.
-/

namespace PipelineEngine

/-! ## Configuration faults

What is wrong with a document: names declared twice, references that lead nowhere, and
texts that cannot be read.  A fault says where it was found.
-/

/-- What is wrong at one place of a document. -/
inductive ConfigFault where
  | duplicateName (kind name scope : String)
  /-- A step name that expressions could not tell from a root. -/
  | reservedStepName (name scope : String)
  | unresolvedForeignKey (table constraint reason : String)
  | unknownPipeline (owner pipeline : String)
  | missingPipeline (owner : String)
  | unknownTable (owner table : String)
  | unknownColumn (owner column : String)
  | expression (location : String) (error : ExpressionError)
  /-- A reference to a step that does not come earlier. -/
  | forwardReference (location step reference : String)
  | invalidReference (location reference reason : String)
  | invalidYield (location : String) (error : YieldError)
  | provider (location : String) (error : ProviderRefError)
  | unknownBuilder (location builder : String)
  | subscription (location : String) (error : SourceError)
  | schedule (job : String) (error : ScheduleError)
  | columnDefault (table column : String) (error : DefaultError)
deriving Repr, DecidableEq

namespace ConfigFault

def message : ConfigFault → String
  | .duplicateName kind name scope => "Duplicate " ++ kind ++ " name '" ++ name ++ "' in " ++ scope
  | .reservedStepName name scope => "Step name '" ++ name ++ "' in " ++ scope ++ " is reserved"
  | .unresolvedForeignKey table constraint reason =>
    "Foreign key '" ++ constraint ++ "' on table '" ++ table ++ "' does not resolve: " ++ reason
  | .unknownPipeline owner pipeline =>
    owner ++ " references unknown pipeline '" ++ pipeline ++ "'"
  | .missingPipeline owner => owner ++ " must name a pipeline"
  | .unknownTable owner table => owner ++ " references unknown table '" ++ table ++ "'"
  | .unknownColumn owner column => owner ++ " references unknown column '" ++ column ++ "'"
  | .expression location error => location ++ ": " ++ error.message
  | .forwardReference location step reference =>
    location ++ ": '" ++ reference ++ "' does not refer to a step before '" ++ step ++ "'"
  | .invalidReference location reference reason =>
    location ++ ": invalid reference '" ++ reference ++ "': " ++ reason
  | .invalidYield location error => location ++ ": " ++ error.message
  | .provider location error => location ++ ": " ++ error.message
  | .unknownBuilder location builder => location ++ ": unknown step builder '" ++ builder ++ "'"
  | .subscription location error => location ++ ": " ++ error.message
  | .schedule job error => "Job '" ++ job ++ "': " ++ error.message
  | .columnDefault table column error =>
    "Column '" ++ table ++ "." ++ column ++ "': " ++ error.message

/-- All faults of a document as one text. -/
def report (faults : List ConfigFault) : String :=
  Numeral.decimal faults.length ++ " configuration error(s):\n" ++
    "\n".intercalate (faults.map fun f => "  - " ++ f.message)

/-- The names that occur more than once, each at its second occurrence. -/
def repeatedNames (names : List String) : List String :=
  go [] names
where
  go (seen : List String) : List String → List String
    | [] => []
    | name :: rest =>
      if seen.count name = 1 then name :: go (name :: seen) rest else go (name :: seen) rest

/-- The faults of names that ought to be unique. -/
def ofNames (kind scope : String) (names : List String) : List ConfigFault :=
  (repeatedNames names).map fun name => .duplicateName kind name scope

end ConfigFault

/-! ## Faults of plans

What can be wrong with a sequence of steps: names, providers and mappings.  A mapping
may only look backwards, at a step that stands before its own or at a position that an
earlier explicit step takes.
-/

/-- The step names that stand for roots of expressions. -/
def reservedStepNames : List String := ["args", "env", "pipeline", "outcome"]

namespace Plan

/-- The fault of a reference in the step number `index` of a plan. -/
def referenceFault? (location : String) (plan : List PlannedStep) (index : Nat) (step : PlannedStep)
    (r : Reference) : Option ConfigFault :=
  let forward := ConfigFault.forwardReference location step.step.name r.raw
  let invalid := ConfigFault.invalidReference location r.raw
  match r.root with
  | .args | .env => none
  | .outcome => some (invalid "the outcome is only visible to response rules")
  | .pipeline position =>
    if step.hook then some (invalid "hooks cannot address explicit steps by position")
    else if position < (plan.take index).countP (fun p => !p.hook) then none
    else some forward
  | .named name =>
    match plan.findIdx? fun p => p.step.name = name with
    | some position => if position < index then none else some forward
    | none => some (invalid ("no step named '" ++ name ++ "'"))

/-- The faults of a mapping of the step number `index` of a plan. -/
def mappingFaults (location : String) (plan : List PlannedStep) (index : Nat) (step : PlannedStep)
    (m : Mapping) : List ConfigFault :=
  match Expr.parseMapping m.source with
  | .error e => [.expression location e]
  | .ok e => e.references.filterMap (referenceFault? location plan index step)

/-- The faults of a provider. -/
def providerFaults (d : Document) (location provider : String) : List ConfigFault :=
  match ProviderRef.parse provider with
  | .error e => [.provider location e]
  | .ok (.custom builder _) =>
    if (d.stepBuilder? builder).isNone then [.unknownBuilder location builder] else []
  | .ok _ => []

/-- The faults of the step number `index` of a plan. -/
def stepFaults (d : Document) (scope : String) (plan : List PlannedStep) (index : Nat)
    (step : PlannedStep) : List ConfigFault :=
  let location := scope ++ " step '" ++ step.step.name ++ "'"
  (if step.step.name ∈ reservedStepNames then [.reservedStepName step.step.name scope] else []) ++
    providerFaults d location step.step.provider ++
    step.step.mappings.flatMap (mappingFaults location plan index step)

/-- The faults of a plan.  Without hooks only the explicit steps are looked at, each at
its place among the hooks. -/
def faults (d : Document) (scope : String) (plan : List PlannedStep) (withHooks : Bool) :
    List ConfigFault :=
  let checked := plan.zipIdx.filter fun (p, _) => withHooks || !p.hook
  ConfigFault.ofNames "step" scope (checked.map fun (p, _) => p.step.name) ++
    checked.flatMap fun (p, index) => stepFaults d scope plan index p

/-- Steps without hooks as a plan. -/
def ofSteps (steps : List Step) : List PlannedStep := steps.map fun s => ⟨s, false⟩

end Plan

end PipelineEngine
