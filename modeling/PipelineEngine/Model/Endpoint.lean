import PipelineEngine.Model.Plan
import PipelineEngine.Schedule.Basic

/-!
# Faults of endpoints and jobs

What can be wrong with endpoints and jobs, the bindings of subscriptions to pipelines,
and the schedules of jobs.
-/

namespace PipelineEngine

/-- An endpoint that runs a pipeline for each event of its sources. -/
structure SubscriptionBinding where
  endpoint : String
  pipeline : String
  sources : List SubscriptionSource
deriving Repr, Inhabited, DecidableEq

namespace ResponseRule

/-- The faults of a response rule. -/
def faults (location : String) (r : ResponseRule) : List ConfigFault :=
  (match r.condition.map Expr.parseCondition with
    | some (.error e) => [.expression location e]
    | _ => []) ++
  (match r.selection.map Yield.parse with
    | some (.error e) => [.invalidYield location e]
    | _ => []) ++
  r.mappings.filterMap fun m =>
    match Expr.parseMapping m.source with
    | .error e => some (.expression location e)
    | .ok _ => none

end ResponseRule

namespace Endpoint

/-- The name of an endpoint in messages. -/
def owner (e : Endpoint) : String := "endpoint '" ++ e.key ++ "'"

/-- The fault of a source that an endpoint subscribes to. -/
def sourceFault? (d : Document) (owner source : String) : Option ConfigFault :=
  match SubscriptionSource.parse source with
  | .ok (.table table _) => if (d.table? table).isNone then some (.unknownTable owner table) else none
  | .ok _ => none
  | .error e => some (.subscription owner e)

/-- The faults of a subscription. -/
def subscriptionFaults (d : Document) (e : Endpoint) (s : Subscription) : List ConfigFault :=
  let owner := "subscription " ++ e.owner
  match e.pipeline with
  | none => [.missingPipeline owner]
  | some _ => s.sources.filterMap (sourceFault? d owner)

/-- The faults of an endpoint. -/
def faults (d : Document) (e : Endpoint) : List ConfigFault :=
  (match e.pipeline with
    | some pipeline =>
      if (d.pipeline? pipeline).isNone then [.unknownPipeline e.owner pipeline] else []
    | none => []) ++
  e.responses.zipIdx.flatMap (fun (r, index) =>
    r.faults (e.owner ++ " response #" ++ Numeral.decimal index ++ " (" ++
      Numeral.decimal r.status ++ ")")) ++
  match e.subscription with
  | some s => e.subscriptionFaults d s
  | none => []

/-- What may be an oversight in an endpoint without being wrong. -/
def warning? (e : Endpoint) : Option String :=
  if e.isSubscription then none
  else if e.responses.isEmpty then some (e.owner ++ " has no response rules")
  else if e.responses.any (·.isFallback) then none
  else some (e.owner ++ " has no fallback response rule")

/-- The binding of a subscription endpoint. -/
def binding? (e : Endpoint) : Option SubscriptionBinding := do
  let s ← e.subscription
  let pipeline ← e.pipeline
  let sources ← s.sources.mapM fun source => (SubscriptionSource.parse source).toOption
  return ⟨e.key, pipeline, sources⟩

end Endpoint

namespace Job

/-- The faults of a job. -/
def faults (d : Document) (j : Job) : List ConfigFault :=
  (if (d.pipeline? j.pipeline).isNone then
    [.unknownPipeline ("job '" ++ j.name ++ "'") j.pipeline]
  else []) ++
  match Schedule.ofJob j with
  | .error e => [.schedule j.name e]
  | .ok _ => []

end Job

namespace Document

/-- The faults of all endpoints. -/
def endpointFaults (d : Document) : List ConfigFault :=
  ConfigFault.ofNames "endpoint" "rest" (d.endpoints.map Endpoint.key) ++
    d.endpoints.flatMap (Endpoint.faults d)

/-- The faults of all jobs. -/
def jobFaults (d : Document) : List ConfigFault :=
  ConfigFault.ofNames "job" "document" (d.jobs.map (·.name)) ++ d.jobs.flatMap (Job.faults d)

/-- The bindings of all subscription endpoints. -/
def bindings (d : Document) : List SubscriptionBinding := d.endpoints.filterMap Endpoint.binding?

/-- The schedules of all jobs, by name. -/
def schedules (d : Document) : Fields Schedule :=
  Fields.ofList (d.jobs.filterMap fun j => (Schedule.ofJob j).toOption.map fun s => (j.name, s))

end Document

end PipelineEngine
