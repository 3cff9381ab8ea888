import PipelineEngine.Report.Forms

/-!
# Descriptions of models and schedules

What a model has found out about its document, as a value.
-/

namespace PipelineEngine

namespace SubscriptionSource

/-- The kind and the name of a source. -/
def parts : SubscriptionSource → List (String × Value)
  | .table name _ => [("kind", .string "table"), ("name", .string name)]
  | .custom name => [("kind", .string "custom"), ("name", .string name)]

def toValue (s : SubscriptionSource) : Value :=
  .ofPairs (("display", .string s.display) :: s.parts)

end SubscriptionSource

def SubscriptionBinding.toValue (b : SubscriptionBinding) : Value :=
  .ofPairs [
    ("endpoint", .string b.endpoint), ("pipeline", .string b.pipeline),
    ("sources", .array (b.sources.map SubscriptionSource.toValue))]

def ForeignKey.toValue (k : ForeignKey) : Value :=
  .ofPairs [
    ("table", .string k.table), ("name", .string k.name), ("target_table", .string k.target),
    ("columns", .array (k.columns.map fun (a, b) => .array [.string a, .string b])),
    ("on_delete", .string k.onDelete.name), ("on_update", .string k.onUpdate.name)]

/-- The key of an endpoint and whether it delivers events. -/
def Endpoint.summary (e : Endpoint) : Value :=
  .ofPairs [("key", .string e.key), ("subscription", .bool e.isSubscription)]

namespace Report

/-- The value of a list of texts. -/
def texts (l : List String) : Value := .array (l.map .string)

end Report

namespace Model

/-- A table with its primary key and the foreign keys at both of its ends. -/
def tableSummary (m : Model) (t : Table) : Value :=
  .ofPairs [
    ("name", .string t.name), ("primary_key", Report.texts (t.primaryKey.map (·.name))),
    ("references_from", Report.texts ((m.keysFrom t.name).map (·.name))),
    ("references_to", Report.texts ((m.keysTo t.name).map (·.name)))]

/-- A job with its first fire. -/
def jobSummary (m : Model) (j : Job) : Except SpanOverflow (String × Value) := do
  let first ←
    match m.schedule? j.name with
    | some s => s.firstFire
    | none => pure none
  return (j.name, .ofPairs [("enabled", .bool j.enabled), ("first", Instant.optional first)])

/-- The description of a model. -/
def describe (m : Model) : Except SpanOverflow Value := do
  let d := m.document
  return .ofPairs [
    ("epoch", .nat m.epoch), ("warnings", Report.texts m.warnings),
    ("env", .object (m.env.map fun (k, x) => (k, .string x))),
    ("tables", .array (d.tables.map m.tableSummary)),
    ("pipelines", Report.texts (d.pipelines.map (·.name))),
    ("endpoints", .array (d.endpoints.map Endpoint.summary)),
    ("foreign_keys", .array (m.foreignKeys.map ForeignKey.toValue)),
    ("subscriptions", .array (m.subscriptions.map SubscriptionBinding.toValue)),
    ("jobs", .ofPairs (← d.jobs.mapM m.jobSummary))]

end Model

/-- What a document has under some names. -/
def Document.findings (d : Document) (names : List String) : Value :=
  let each (f : String → Value) : Value := .ofPairs (names.map fun n => (n, f n))
  let count (n : Option Nat) : Value := .ofOption (n.map .nat)
  .ofPairs [
    ("env", .object (d.envMap.map fun (k, x) => (k, .string x))),
    ("table_names", Report.texts (d.tables.map (·.name))),
    ("tables", each fun n => count ((d.table? n).map (·.columns.length))),
    ("columns", each fun n =>
      Report.texts ((d.tables.filter fun t => (t.column? n).isSome).map (·.name))),
    ("pipelines", each fun n => count ((d.pipeline? n).map (·.steps.length))),
    ("steps", each fun n => .array (d.pipelines.map fun p =>
      .array [count (p.stepIndex? n), count ((p.step? n).map (·.timeout 30))])),
    ("builders", each fun n => Report.optional ((d.stepBuilder? n).map (·.image))),
    ("constraints", Report.texts (d.tables.flatMap fun t =>
      t.constraints.zipIdx.map fun (c, i) => c.label t.name i))]

namespace IntervalUnit

/-- The name of a unit in descriptions. -/
def label : IntervalUnit → String
  | .minute => "Minute"
  | .hour => "Hour"
  | .day => "Day"
  | .week => "Week"
  | .month => "Month"
  | .monthStart => "MonthStart"
  | .monthEnd => "MonthEnd"
  | .year => "Year"
  | .yearStart => "YearStart"
  | .yearEnd => "YearEnd"

end IntervalUnit

def Frequency.toValue : Frequency → Value
  | .every n => .ofPairs [("every", .nat n)]
  | .only places => .ofPairs [("only", .array (places.map .int))]

end PipelineEngine
