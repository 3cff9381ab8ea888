import PipelineEngine.Document.Hooks
import PipelineEngine.Word

/-!
# Endpoints

Where pipelines meet the outside: request endpoints with response rules, and
subscription endpoints bound to events.
-/

namespace PipelineEngine

inductive HttpMethod where
  | get
  | post
  | put
  | patch
  | delete
deriving Repr, Inhabited, DecidableEq

def HttpMethod.name : HttpMethod → String
  | .get => "GET"
  | .post => "POST"
  | .put => "PUT"
  | .patch => "PATCH"
  | .delete => "DELETE"

def HttpMethod.names : List (String × HttpMethod) :=
  [.get, .post, .put, .patch, .delete].map fun m => (m.name, m)

/-- A rule that turns an outcome into a response. -/
structure ResponseRule where
  status : Nat
  /-- The condition; a rule without one always holds. -/
  condition : Option String
  /-- Which items of the outcome are taken. -/
  selection : Option String
  mappings : List Mapping
deriving Repr, Inhabited, DecidableEq

namespace ResponseRule

/-- Whether the rule holds for every outcome. -/
def isFallback (r : ResponseRule) : Bool := r.condition.isNone

def ofNode? (node : Node) : Option ResponseRule := do
  let r ← Record.read ["status", "when", "yield", "mappings"] node
  return {
    status := ← r.required "status" (Node.asNat (Word.bound 16))
    condition := ← r.optional "when" Node.asString
    selection := ← r.optional "yield" Node.asString
    mappings := ← r.defaulted "mappings" [] (Node.asList Mapping.ofNode?) }

def toValue (r : ResponseRule) : Value :=
  .ofPairs [
    ("status", .nat r.status),
    ("when", .ofOption (r.condition.map .string)),
    ("yield", .ofOption (r.selection.map .string)),
    ("mappings", .array (r.mappings.map Mapping.toValue))]

end ResponseRule

/-- The events that an endpoint is bound to. -/
structure Subscription where
  sources : List String
deriving Repr, Inhabited, DecidableEq

namespace Subscription

def ofNode? (node : Node) : Option Subscription := do
  let r ← Record.read ["sources"] node
  return ⟨← r.required "sources" (Node.asList Node.asString)⟩

def toValue (s : Subscription) : Value := .ofPairs [("sources", .array (s.sources.map .string))]

end Subscription

/-- An endpoint. -/
structure Endpoint where
  name : Option String
  path : Option String
  method : HttpMethod
  /-- The content type of request bodies. -/
  accepts : Option String
  produces : Option String
  /-- The pipeline run for each request or event. -/
  pipeline : Option String
  responses : List ResponseRule
  subscription : Option Subscription
deriving Repr, Inhabited, DecidableEq

namespace Endpoint

/-- The key of an endpoint: its name, or else its method and path. -/
def key (e : Endpoint) : String :=
  match e.name, e.path with
  | some name, _ => name
  | none, some path => e.method.name ++ " " ++ path
  | none, none => e.method.name ++ " /"

/-- Whether the endpoint is bound to events instead of requests. -/
def isSubscription (e : Endpoint) : Bool := e.subscription.isSome

def ofNode? (node : Node) : Option Endpoint := do
  let r ← Record.read
    ["name", "path", "method", "accepts", "produces", "pipeline", "responses", "subscription"] node
  return {
    name := ← r.optional "name" Node.asString
    path := ← r.optional "path" Node.asString
    method := ← r.defaulted "method" .get (Node.asChoice HttpMethod.names)
    accepts := ← r.optional "accepts" Node.asString
    produces := ← r.optional "produces" Node.asString
    pipeline := ← r.optional "pipeline" Node.asString
    responses := ← r.defaulted "responses" [] (Node.asList ResponseRule.ofNode?)
    subscription := ← r.optional "subscription" Subscription.ofNode? }

def toValue (e : Endpoint) : Value :=
  let text (s : Option String) := Value.ofOption (s.map .string)
  .ofPairs [
    ("name", text e.name),
    ("path", text e.path),
    ("method", .string e.method.name),
    ("accepts", text e.accepts),
    ("produces", text e.produces),
    ("pipeline", text e.pipeline),
    ("responses", .array (e.responses.map ResponseRule.toValue)),
    ("subscription", .ofOption (e.subscription.map Subscription.toValue))]

end Endpoint

/-- The request endpoints of a document. -/
structure Rest where
  base : Option String
  endpoints : List Endpoint
deriving Repr, Inhabited, DecidableEq

namespace Rest

def ofNode? (node : Node) : Option Rest := do
  let r ← Record.read ["base", "endpoints"] node
  return ⟨← r.optional "base" Node.asString,
    ← r.defaulted "endpoints" [] (Node.asList Endpoint.ofNode?)⟩

def toValue (r : Rest) : Value :=
  .ofPairs [
    ("base", .ofOption (r.base.map .string)),
    ("endpoints", .array (r.endpoints.map Endpoint.toValue))]

end Rest

/-- Whether and from what a GraphQL schema is derived. -/
structure GraphQl where
  base : Option String
  source : Option String
  enableSubscriptions : Bool
deriving Repr, Inhabited, DecidableEq

namespace GraphQl

def ofNode? (node : Node) : Option GraphQl := do
  let r ← Record.read ["base", "from", "enable_subscriptions"] node
  return ⟨← r.optional "base" Node.asString, ← r.optional "from" Node.asString,
    ← r.defaulted "enable_subscriptions" false Node.asBool⟩

def toValue (g : GraphQl) : Value :=
  .ofPairs [
    ("base", .ofOption (g.base.map .string)),
    ("from", .ofOption (g.source.map .string)),
    ("enable_subscriptions", .bool g.enableSubscriptions)]

end GraphQl

/-- A pipeline run on a schedule. Times and intervals are kept as written. -/
structure Job where
  name : String
  pipeline : String
  enabled : Bool
  repeats : Bool
  start : String
  stop : Option String
  interval : String
  frequency : Option String
deriving Repr, Inhabited, DecidableEq

namespace Job

def ofNode? (node : Node) : Option Job := do
  let r ← Record.read
    ["name", "pipeline", "enabled", "repeats", "start", "end", "interval", "frequency"] node
  return {
    name := ← r.required "name" Node.asString
    pipeline := ← r.required "pipeline" Node.asString
    enabled := ← r.defaulted "enabled" true Node.asBool
    repeats := ← r.defaulted "repeats" true Node.asBool
    start := ← r.required "start" Node.asString
    stop := ← r.optional "end" Node.asString
    interval := ← r.required "interval" Node.asString
    frequency := ← r.optional "frequency" Node.asString }

def toValue (j : Job) : Value :=
  .ofPairs [
    ("name", .string j.name),
    ("pipeline", .string j.pipeline),
    ("enabled", .bool j.enabled),
    ("repeats", .bool j.repeats),
    ("start", .string j.start),
    ("end", .ofOption (j.stop.map .string)),
    ("interval", .string j.interval),
    ("frequency", .ofOption (j.frequency.map .string))]

end Job

end PipelineEngine
