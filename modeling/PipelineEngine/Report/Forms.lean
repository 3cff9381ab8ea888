import PipelineEngine.Provider.Builtin
import PipelineEngine.Report.Errors

/-!
# Written forms

Expressions, provider references, executions and what endpoints send, as values.
-/

namespace PipelineEngine

/-! ## Expressions -/

def Root.toValue : Root → Value
  | .args => .string "args"
  | .env => .string "env"
  | .outcome => .string "outcome"
  | .pipeline n => .ofPairs [("pipeline", .nat n)]
  | .named s => .ofPairs [("named", .string s)]

def PathSegment.toValue : PathSegment → Value
  | .field s => .string s
  | .index n => .nat n

def Reference.toValue (r : Reference) : Value :=
  .ofPairs [
    ("raw", .string r.raw), ("root", r.root.toValue),
    ("path", .array (r.path.map PathSegment.toValue))]

def Segment.toValue : Segment → Value
  | .text s => .ofPairs [("text", .string s)]
  | .ref r => .ofPairs [("ref", r.toValue)]

def Expr.toValue : Expr → Value
  | .literal v => .ofPairs [("literal", v)]
  | .ref r => .ofPairs [("ref", r.toValue)]
  | .template segments => .ofPairs [("template", .array (segments.map Segment.toValue))]
  | .not e => .ofPairs [("not", e.toValue)]
  | .eq l r => .ofPairs [("eq", .array [l.toValue, r.toValue])]
  | .ne l r => .ofPairs [("ne", .array [l.toValue, r.toValue])]
  | .and l r => .ofPairs [("and", .array [l.toValue, r.toValue])]
  | .or l r => .ofPairs [("or", .array [l.toValue, r.toValue])]

/-! ## Providers -/

def ImageRef.toValue (r : ImageRef) : Value :=
  .ofPairs [
    ("username", Report.optional (r.credentials.map (·.username))),
    ("password", Report.optional (r.credentials.map (·.password))),
    ("image", .string r.image), ("tag", Report.optional r.tag), ("reference", .string r.reference)]

def ProviderRef.toValue (r : ProviderRef) : Value :=
  let parts :=
    match r with
    | .builtin name => [
        ("kind", Value.string "builtin"), ("name", .string name),
        ("known", .bool (Builtin.names.contains name))]
    | .image i => [("kind", .string "image"), ("image", i.toValue)]
    | .dockerfile path => [("kind", .string "dockerfile"), ("path", .string path)]
    | .custom builder path =>
      [("kind", .string "custom"), ("builder", .string builder), ("path", .string path)]
  .ofPairs (("display", .string r.display) :: parts)

/-! ## Executions -/

def Payload.toValue : Payload → Value
  | .parsed v => .ofPairs [("parsed", v)]
  | .raw bytes => .ofPairs [("raw", .string (Numeral.hex bytes))]

def Outcome.toValue (o : Outcome) : Value :=
  .ofPairs [
    ("success", .bool o.success), ("body", o.body.toValue),
    ("failed_step", Report.optional o.failedStep), ("error", Report.optional o.error)]

def Context.toValue (ctx : Context) : Value :=
  .ofPairs [
    ("position", .nat ctx.position),
    ("steps", .array (ctx.steps.map fun s =>
      .ofPairs [("name", .string s.name), ("output", s.output.toValue)]))]

def Execution.toValue (e : Execution) : Value :=
  .ofPairs [("outcome", e.outcome.toValue), ("context", e.context.toValue)]

/-! ## Endpoints, events and jobs -/

/-- The change of a row without its time. -/
def TableEvent.summary (e : TableEvent) : Value :=
  .ofPairs [
    ("table", .string e.table), ("key", .object e.primaryKey),
    ("kind", Report.optional (e.kind?.map (·.name))), ("user", Report.optional e.user)]

def Yield.toValue : Yield → Value
  | .index n => .ofPairs [("index", .nat n)]
  | .onward n => .ofPairs [("from", .nat n)]
  | .until n => .ofPairs [("until", .nat n)]
  | .range a b => .ofPairs [("range", .array [.nat a, .nat b])]

def Response.toValue (r : Response) : Value :=
  .ofPairs [("status", .nat r.status), ("body", r.body.toValue)]

def Delivery.toValue (d : Delivery) : Value :=
  .ofPairs [
    ("endpoint", .string d.endpoint), ("trigger", d.trigger.toValue),
    ("outcome", d.outcome.toValue), ("response", .ofOption (d.response.map Response.toValue)),
    ("body", d.body.toValue)]

def PublishReport.toValue (r : PublishReport) : Value :=
  .ofPairs [
    ("endpoint", .string r.endpoint), ("success", .bool r.success), ("receivers", .nat r.receivers)]

/-- The written form of a time that may be missing. -/
def Instant.optional (t : Option Instant) : Value := .ofOption (t.map fun t => .string t.offsetText)

def JobTick.toValue (t : JobTick) : Value :=
  .ofPairs [
    ("job", .string t.job), ("pipeline", .string t.pipeline),
    ("fire_at", .string t.fireAt.offsetText)]

end PipelineEngine
