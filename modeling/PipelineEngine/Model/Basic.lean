import PipelineEngine.Model.Endpoint
import PipelineEngine.Model.Table

/-!
# Models

A document whose references are known to lead somewhere, together with what was found
out on the way: foreign keys, subscription bindings and schedules.  Linking looks at a
whole document and collects every fault before it decides; only a document without
faults becomes a model.
-/

namespace PipelineEngine

/-- A linked configuration. -/
structure Model where
  document : Document
  env : Fields String
  foreignKeys : List ForeignKey
  subscriptions : List SubscriptionBinding
  schedules : Fields Schedule
  warnings : List String
  /-- The number of accepted reloads before it. -/
  epoch : Nat
deriving Inhabited

namespace Document

/-- The faults of step builders. -/
def builderFaults (d : Document) : List ConfigFault :=
  ConfigFault.ofNames "step builder" "document" (d.stepBuilders.map (·.name)) ++
    d.stepBuilders.filterMap fun b =>
      let image := trimBlanks b.image
      match ImageRef.parse ((dropMarkText? "docker:" image).getD image) with
      | .error e => some (.provider ("step builder '" ++ b.name ++ "'") e)
      | .ok _ => none

/-- The faults of global options.  Hooks are looked at on their own: they may address
only each other, the arguments and the environment. -/
def optionFaults (d : Document) : List ConfigFault :=
  ((d.apis.globalOptions.crudTables.filter fun t => (d.table? t).isNone).map fun t =>
    .unknownTable "global_options.crud_tables" t) ++
  Plan.faults d "global hooks" (d.hooks.steps.map fun s => ⟨s, true⟩) true

/-- The faults of a pipeline. -/
def pipelineFault (d : Document) (p : Pipeline) : List ConfigFault :=
  let scope := "pipeline '" ++ p.name ++ "'"
  let hookNames := d.hooks.steps.map (·.name)
  ((p.steps.filter fun s => s.name ∈ hookNames).map fun s =>
    .duplicateName "step" s.name (scope ++ " (shadows a global hook)")) ++
  Plan.faults d scope (d.hooks.plan p.steps) false ++
  match p.parser with
  | some parser => Plan.faults d (scope ++ " parser") (Plan.ofSteps [parser]) true
  | none => []

/-- The faults of all pipelines. -/
def pipelineFaults (d : Document) : List ConfigFault :=
  ConfigFault.ofNames "pipeline" "document" (d.pipelines.map (·.name)) ++
    d.pipelines.flatMap d.pipelineFault

/-- Every fault of a document. -/
def faults (d : Document) : List ConfigFault :=
  d.builderFaults ++ d.tableFaults ++ d.optionFaults ++ d.pipelineFaults ++ d.endpointFaults ++
    d.jobFaults

/-- The model of a document without faults. -/
def linked (d : Document) (epoch : Nat) : Model where
  document := d
  env := d.envMap
  foreignKeys := d.foreignKeys
  subscriptions := d.bindings
  schedules := d.schedules
  warnings := d.endpoints.filterMap Endpoint.warning?
  epoch := epoch

/-- Links a document; the faults say why it cannot be linked. -/
def link (d : Document) (epoch : Nat) : Except (List ConfigFault) Model :=
  if d.faults.isEmpty then .ok (d.linked epoch) else .error d.faults

end Document

namespace Model

def pipeline? (m : Model) (name : String) : Option Pipeline := m.document.pipeline? name

def table? (m : Model) (name : String) : Option Table := m.document.table? name

def hooks (m : Model) : Hooks := m.document.hooks

/-- The endpoint of a key. -/
def endpoint? (m : Model) (key : String) : Option Endpoint :=
  m.document.endpoints.find? (·.key = key)

/-- The foreign keys that a table declares. -/
def keysFrom (m : Model) (table : String) : List ForeignKey :=
  m.foreignKeys.filter (·.table = table)

/-- The foreign keys that point at a table. -/
def keysTo (m : Model) (table : String) : List ForeignKey :=
  m.foreignKeys.filter (·.target = table)

def schedule? (m : Model) (job : String) : Option Schedule := m.schedules.get? job

end Model

end PipelineEngine
