import PipelineEngine.Document.Column
import PipelineEngine.Word

/-!
# Tables

Tables with their columns and constraints, and the databases and schemas that hold
them.
-/

namespace PipelineEngine

/-- What happens to the rows that depend on a row. -/
inductive ReferentialAction where
  | cascade
  | restrict
deriving Repr, Inhabited, DecidableEq

def ReferentialAction.name : ReferentialAction → String
  | .cascade => "cascade"
  | .restrict => "restrict"

def ReferentialAction.names : List (String × ReferentialAction) :=
  [("cascade", .cascade), ("restrict", .restrict)]

inductive ConstraintKind where
  | foreignKey
  | unique
deriving Repr, Inhabited, DecidableEq

def ConstraintKind.name : ConstraintKind → String
  | .foreignKey => "foreign_key"
  | .unique => "unique"

def ConstraintKind.names : List (String × ConstraintKind) :=
  [("foreign_key", .foreignKey), ("unique", .unique)]

/-- A constraint of a table. -/
structure Constraint where
  name : Option String
  kind : ConstraintKind
  /-- The columns that a uniqueness constraint covers. -/
  columns : List String
  /-- The links of a foreign key, from a local column to `table.column`. -/
  mappings : List Mapping
  onDelete : Option ReferentialAction
  onUpdate : Option ReferentialAction
deriving Repr, Inhabited, DecidableEq

namespace Constraint

/-- The name used in messages: the declared one, or the table and the number of
the constraint. -/
def label (c : Constraint) (table : String) (index : Nat) : String :=
  c.name.getD (table ++ "_constraint_" ++ Numeral.decimal index)

def ofNode? (node : Node) : Option Constraint := do
  let r ← Record.read ["name", "type", "columns", "mappings", "on_delete", "on_update"] node
  return {
    name := ← r.optional "name" Node.asString
    kind := ← r.required "type" (Node.asChoice ConstraintKind.names)
    columns := ← r.defaulted "columns" [] (Node.asList Node.asString)
    mappings := ← r.defaulted "mappings" [] (Node.asList Mapping.ofNode?)
    onDelete := ← r.optional "on_delete" (Node.asChoice ReferentialAction.names)
    onUpdate := ← r.optional "on_update" (Node.asChoice ReferentialAction.names) }

def toValue (c : Constraint) : Value :=
  let action (a : Option ReferentialAction) := Value.ofOption (a.map fun a => .string a.name)
  .ofPairs [
    ("name", .ofOption (c.name.map .string)),
    ("type", .string c.kind.name),
    ("columns", .array (c.columns.map .string)),
    ("mappings", .array (c.mappings.map Mapping.toValue)),
    ("on_delete", action c.onDelete),
    ("on_update", action c.onUpdate)]

end Constraint

/-- A role that a table fulfils for the platform. -/
inductive TableRole where
  | account
  | file
  | permission
  | role
deriving Repr, Inhabited, DecidableEq

def TableRole.name : TableRole → String
  | .account => "account"
  | .file => "file"
  | .permission => "permission"
  | .role => "role"

def TableRole.names : List (String × TableRole) :=
  [.account, .file, .permission, .role].map fun r => (r.name, r)

/-- A role together with the columns that stand for the role's own names. -/
structure WellKnown where
  kind : TableRole
  mappings : List Mapping
deriving Repr, Inhabited, DecidableEq

namespace WellKnown

def ofNode? (node : Node) : Option WellKnown := do
  let r ← Record.read ["type", "mappings"] node
  return ⟨← r.required "type" (Node.asChoice TableRole.names),
    ← r.defaulted "mappings" [] (Node.asList Mapping.ofNode?)⟩

def toValue (w : WellKnown) : Value :=
  .ofPairs [("type", .string w.kind.name), ("mappings", .array (w.mappings.map Mapping.toValue))]

end WellKnown

/-- A table definition. -/
structure Table where
  name : String
  columns : List Column
  constraints : List Constraint
  wellKnown : Option WellKnown
deriving Repr, Inhabited, DecidableEq

namespace Table

/-- The first column of a name. -/
def column? (t : Table) (name : String) : Option Column := t.columns.find? (·.name = name)

/-- The columns of the primary key. -/
def primaryKey (t : Table) : List Column := t.columns.filter (·.primaryKey)

def ofNode? (node : Node) : Option Table := do
  let r ← Record.read ["name", "columns", "constraints", "well_known"] node
  return {
    name := ← r.required "name" Node.asString
    columns := ← r.defaulted "columns" [] (Node.asList Column.ofNode?)
    constraints := ← r.defaulted "constraints" [] (Node.asList Constraint.ofNode?)
    wellKnown := ← r.optional "well_known" WellKnown.ofNode? }

def toValue (t : Table) : Value :=
  .ofPairs [
    ("name", .string t.name),
    ("columns", .array (t.columns.map Column.toValue)),
    ("constraints", .array (t.constraints.map Constraint.toValue)),
    ("well_known", .ofOption (t.wellKnown.map WellKnown.toValue))]

end Table

/-- A schema of a database. -/
structure Schema where
  name : Option String
  tables : List Table
deriving Repr, Inhabited, DecidableEq

namespace Schema

def ofNode? (node : Node) : Option Schema := do
  let r ← Record.read ["name", "tables"] node
  return ⟨← r.optional "name" Node.asString, ← r.defaulted "tables" [] (Node.asList Table.ofNode?)⟩

def toValue (s : Schema) : Value :=
  .ofPairs [
    ("name", .ofOption (s.name.map .string)), ("tables", .array (s.tables.map Table.toValue))]

end Schema

/-- The product that runs a database. -/
inductive DatabaseEngine where
  | mekaDb
  | postgres
  | mySql
  | mariaDb
  | oracle
  | msSql
deriving Repr, Inhabited, DecidableEq

def DatabaseEngine.name : DatabaseEngine → String
  | .mekaDb => "mekadb"
  | .postgres => "postgres"
  | .mySql => "mysql"
  | .mariaDb => "mariadb"
  | .oracle => "oracle"
  | .msSql => "mssql"

def DatabaseEngine.names : List (String × DatabaseEngine) :=
  [.mekaDb, .postgres, .mySql, .mariaDb, .oracle, .msSql].map fun e => (e.name, e)

/-- A database connection and its schemas. -/
structure Database where
  label : String
  engine : DatabaseEngine
  host : Option String
  port : Option Nat
  dbName : Option String
  username : Option String
  password : Option String
  options : Option String
  schemas : List Schema
deriving Repr, Inhabited, DecidableEq

namespace Database

def ofNode? (node : Node) : Option Database := do
  let r ← Record.read
    ["label", "type", "host", "port", "db_name", "username", "password", "options", "schemas"] node
  return {
    label := ← r.required "label" Node.asString
    engine := ← r.defaulted "type" .mekaDb (Node.asChoice DatabaseEngine.names)
    host := ← r.optional "host" Node.asString
    port := ← r.optional "port" (Node.asNat (Word.bound 16))
    dbName := ← r.optional "db_name" Node.asString
    username := ← r.optional "username" Node.asString
    password := ← r.optional "password" Node.asString
    options := ← r.optional "options" Node.asString
    schemas := ← r.defaulted "schemas" [] (Node.asList Schema.ofNode?) }

def toValue (d : Database) : Value :=
  let text (s : Option String) := Value.ofOption (s.map .string)
  .ofPairs [
    ("label", .string d.label),
    ("type", .string d.engine.name),
    ("host", text d.host),
    ("port", .ofOption (d.port.map .nat)),
    ("db_name", text d.dbName),
    ("username", text d.username),
    ("password", text d.password),
    ("options", text d.options),
    ("schemas", .array (d.schemas.map Schema.toValue))]

end Database

end PipelineEngine
