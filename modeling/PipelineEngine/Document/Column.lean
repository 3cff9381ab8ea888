import PipelineEngine.Document.Step
import PipelineEngine.Text.Case

/-!
# Columns

A column of a table: its type, whether it may be null, how its value is generated
when a row leaves it out, and the steps that its values go through.
-/

namespace PipelineEngine

/-- The type of a column. -/
inductive ColumnType where
  | text
  | int
  | bigint
  | float
  | double
  | timestamp
  | bool
  | bytea
deriving Repr, Inhabited, DecidableEq

def ColumnType.name : ColumnType → String
  | .text => "text"
  | .int => "int"
  | .bigint => "bigint"
  | .float => "float"
  | .double => "double"
  | .timestamp => "timestamp"
  | .bool => "bool"
  | .bytea => "bytea"

/-- The written names of types. -/
def ColumnType.names : List (String × ColumnType) :=
  [.text, .int, .bigint, .float, .double, .timestamp, .bool, .bytea].map fun t => (t.name, t)

/-- The three ways a column's values are transformed. -/
inductive ColumnPhase where
  /-- A value in a predicate. -/
  | args
  /-- A value before it is stored. -/
  | write
  /-- A value after it is fetched. -/
  | read
deriving Repr, Inhabited, DecidableEq

def ColumnPhase.name : ColumnPhase → String
  | .args => "args"
  | .write => "write"
  | .read => "read"

/-- The steps of a column's transforms, by phase. -/
structure ColumnPipeline where
  args : List Step
  write : List Step
  read : List Step
deriving Repr, Inhabited, DecidableEq

namespace ColumnPipeline

/-- The steps of a phase. -/
def steps (p : ColumnPipeline) : ColumnPhase → List Step
  | .args => p.args
  | .write => p.write
  | .read => p.read

def ofNode? (node : Node) : Option ColumnPipeline := do
  let r ← Record.read ["args", "write", "read"] node
  let steps (name : String) := r.defaulted name [] (Node.asList Step.ofNode?)
  return ⟨← steps "args", ← steps "write", ← steps "read"⟩

def toValue (p : ColumnPipeline) : Value :=
  let steps (l : List Step) := Value.array (l.map Step.toValue)
  .ofPairs [("args", steps p.args), ("write", steps p.write), ("read", steps p.read)]

end ColumnPipeline

/-- How a value is generated for a row that leaves a column out. -/
inductive DefaultPolicy where
  | none
  | ulid
  | sqid
  | snowflake
deriving Repr, Inhabited, DecidableEq

def DefaultPolicy.name : DefaultPolicy → String
  | .none => "none"
  | .ulid => "ulid"
  | .sqid => "sqid"
  | .snowflake => "snowflake"

/-- Why a column's declared default cannot be used. -/
inductive DefaultError where
  | unsupportedType (type : ColumnType)
  | unknown (declaration : String)
deriving Repr, DecidableEq

def DefaultError.message : DefaultError → String
  | .unsupportedType type =>
    "unique defaults are only supported on text and bigint columns, not " ++ type.name
  | .unknown declaration => "unsupported default '" ++ declaration ++ "'"

/-- A column of a table. -/
structure Column where
  name : String
  type : ColumnType
  nullable : Bool
  primaryKey : Bool
  /-- The default as it was declared. -/
  default : Option String
  pipeline : Option ColumnPipeline
deriving Repr, Inhabited, DecidableEq

namespace Column

/-- The policy that the column declares. Case and blanks do not matter. -/
def defaultPolicy (c : Column) : Except DefaultError DefaultPolicy :=
  match c.default with
  | Option.none => .ok .none
  | some declaration =>
    let normal := String.ofList ((Text.lower declaration.toList).filter fun ch => !Text.isBlank ch)
    match normal, c.type with
    | "none", _ => .ok .none
    | "unique", .text => .ok .ulid
    | "unique(ulid)", .text => .ok .ulid
    | "unique(sqid)", .text => .ok .sqid
    | "unique", .bigint => .ok .snowflake
    | "unique(snowflake)", .bigint => .ok .snowflake
    | "unique", other => .error (.unsupportedType other)
    | "unique(sqid)", other => .error (.unsupportedType other)
    | "unique(ulid)", other => .error (.unsupportedType other)
    | _, _ => .error (.unknown declaration)

/-- Whether stored rows must have a value in the column. -/
def isRequired (c : Column) : Bool := c.primaryKey || !c.nullable

/-- The steps of a phase, none when the column has no transforms. -/
def phaseSteps (c : Column) (phase : ColumnPhase) : List Step :=
  match c.pipeline with
  | some p => p.steps phase
  | Option.none => []

def ofNode? (node : Node) : Option Column := do
  let r ← Record.read ["name", "type", "nullable", "primary_key", "default", "pipeline"] node
  return {
    name := ← r.required "name" Node.asString
    type := ← r.required "type" (Node.asChoice ColumnType.names)
    nullable := ← r.defaulted "nullable" true Node.asBool
    primaryKey := ← r.defaulted "primary_key" false Node.asBool
    default := ← r.optional "default" Node.asString
    pipeline := ← r.optional "pipeline" ColumnPipeline.ofNode? }

def toValue (c : Column) : Value :=
  .ofPairs [
    ("name", .string c.name),
    ("type", .string c.type.name),
    ("nullable", .bool c.nullable),
    ("primary_key", .bool c.primaryKey),
    ("default", .ofOption (c.default.map .string)),
    ("pipeline", .ofOption (c.pipeline.map ColumnPipeline.toValue))]

end Column

end PipelineEngine
