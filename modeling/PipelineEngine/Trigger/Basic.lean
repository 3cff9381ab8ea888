import PipelineEngine.Calendar.Timestamp
import PipelineEngine.Shape.Record
import PipelineEngine.Text.Blank
import PipelineEngine.Text.Case
import PipelineEngine.Text.Cut

/-!
# Triggers

The events that start subscription pipelines: a change of a row that the storage
reports, or a named event of the application.  Endpoints name the events that they wait
for as subscription sources.
-/

namespace PipelineEngine

inductive ChangeKind where
  | insert
  | update
  | delete
deriving Repr, Inhabited, DecidableEq

def ChangeKind.name : ChangeKind → String
  | .insert => "insert"
  | .update => "update"
  | .delete => "delete"

/-- The change of a row.  One of the three flags is expected to be set; the first that
is set says what happened. -/
structure TableEvent where
  table : String
  primaryKey : Fields Value
  time : Instant
  user : Option String
  isInsert : Bool
  isUpdate : Bool
  isDelete : Bool
deriving Inhabited

namespace TableEvent

/-- The event of a change. -/
def ofChange (table : String) (primaryKey : Fields Value) (time : Instant) (user : Option String)
    (kind : ChangeKind) : TableEvent :=
  ⟨table, primaryKey, time, user, kind = .insert, kind = .update, kind = .delete⟩

/-- What happened to the row. -/
def kind? (e : TableEvent) : Option ChangeKind :=
  if e.isInsert then some .insert
  else if e.isUpdate then some .update
  else if e.isDelete then some .delete
  else none

/-- The names of the fields, in their order. -/
def fieldNames : List String :=
  ["table", "primary_key", "event_time", "user_id", "is_insert", "is_update", "is_delete"]

def ofRecord? (r : Record) : Option TableEvent := do
  return {
    table := ← r.required "table" Node.asString
    primaryKey := ← r.required "primary_key" fun n => n.asValue.bind Value.object?
    time := ← r.required "event_time" fun n => n.asString.bind Instant.ofEvent?
    user := ← r.nullable "user_id" Node.asString
    isInsert := ← r.required "is_insert" Node.asBool
    isUpdate := ← r.required "is_update" Node.asBool
    isDelete := ← r.required "is_delete" Node.asBool }

def pairs (e : TableEvent) : List (String × Value) := [
  ("table", .string e.table),
  ("primary_key", .object e.primaryKey),
  ("event_time", .string e.time.zuluText),
  ("user_id", .ofOption (e.user.map .string)),
  ("is_insert", .bool e.isInsert),
  ("is_update", .bool e.isUpdate),
  ("is_delete", .bool e.isDelete)]

end TableEvent

/-- A named event of the application. -/
structure CustomEvent where
  name : String
  payload : Value
  time : Instant
deriving Inhabited

namespace CustomEvent

/-- The names of the fields, in their order. -/
def fieldNames : List String := ["name", "payload", "event_time"]

def ofRecord? (r : Record) : Option CustomEvent := do
  return {
    name := ← r.required "name" Node.asString
    payload := ← r.required "payload" Node.asValue
    time := ← r.required "event_time" fun n => n.asString.bind Instant.ofEvent? }

def pairs (e : CustomEvent) : List (String × Value) := [
  ("name", .string e.name),
  ("payload", e.payload),
  ("event_time", .string e.time.zuluText)]

end CustomEvent

/-- An event that can start a pipeline. -/
inductive Trigger where
  | table (event : TableEvent)
  | custom (event : CustomEvent)
deriving Inhabited

namespace Trigger

/-- The value that a pipeline started by the event gets. -/
def value : Trigger → Value
  | .table e => .ofPairs e.pairs
  | .custom e => .ofPairs e.pairs

/-- The written form of the event, its source named beside its fields. -/
def toValue : Trigger → Value
  | .table e => .ofPairs (("source", .string "table") :: e.pairs)
  | .custom e => .ofPairs (("source", .string "custom") :: e.pairs)

/-- Reads the fields of an event from a named source. -/
def ofSource? (source : String) (fields : Node) : Option Trigger :=
  match source with
  | "table" => ((Record.read TableEvent.fieldNames fields).bind TableEvent.ofRecord?).map .table
  | "custom" => ((Record.read CustomEvent.fieldNames fields).bind CustomEvent.ofRecord?).map .custom
  | _ => none

/-- Whether a key names the source. -/
private def isSourceKey : Node × Node → Bool
  | (.string "source", _) => true
  | _ => false

/-- Reads an event: a mapping with its source beside its fields, or a sequence that
starts with its source. -/
def ofNode? : Node → Option Trigger
  | .map entries =>
    match entries.find? isSourceKey with
    | some (_, .string source) => ofSource? source (.map (entries.filter fun e => !isSourceKey e))
    | _ => none
  | .seq (.string source :: rest) => ofSource? source (.seq rest)
  | _ => none

end Trigger

/-! ## Subscription sources

What an endpoint subscribes to: all changes of a table, written as its name; the
changes of one kind, written `table:insert`, `table:update` or `table:delete`; or the
events of a name, written `custom:name`.
-/

/-- A source of events. -/
inductive SubscriptionSource where
  /-- Changes of a table, of one kind or of any. -/
  | table (table : String) (kind : Option ChangeKind)
  | custom (name : String)
deriving Repr, Inhabited, DecidableEq

/-- A text that names no source. -/
structure SourceError where
  text : String
deriving Repr, DecidableEq

def SourceError.message (e : SourceError) : String :=
  "Invalid subscription source '" ++ e.text ++ "'"

namespace SubscriptionSource

/-- The written names of the kinds of changes. -/
def kindNames : List (String × ChangeKind) :=
  [.insert, .update, .delete].map fun k : ChangeKind => (k.name, k)

/-- Reads a source without blanks at its ends. -/
def read? (s : List Char) : Option SubscriptionSource :=
  match Text.cut? [':'] s with
  | none => if s.isEmpty then none else some (.table (String.ofList s) none)
  | some (before, after) =>
    if before = "custom".toList ∧ !after.isEmpty then some (.custom (String.ofList after))
    else if before.isEmpty then none
    else (kindNames.lookup (String.ofList (Text.lower after))).map fun kind =>
      .table (String.ofList before) (some kind)

/-- Reads a source. -/
def parse (text : String) : Except SourceError SubscriptionSource :=
  let s := Text.trim text.toList
  match read? s with
  | some source => .ok source
  | none => .error ⟨String.ofList s⟩

/-- Whether an event comes from the source. -/
def covers : SubscriptionSource → Trigger → Bool
  | .table name kind, .table e => name = e.table && (kind.isNone || e.kind? = kind)
  | .custom name, .custom e => name = e.name
  | _, _ => false

/-- A kind of change as sources show it. -/
def kindText : ChangeKind → String
  | .insert => "Insert"
  | .update => "Update"
  | .delete => "Delete"

/-- The text of a source in messages. -/
def display : SubscriptionSource → String
  | .table name none => name
  | .table name (some kind) => name ++ ":" ++ kindText kind
  | .custom name => "custom:" ++ name

end SubscriptionSource

end PipelineEngine
