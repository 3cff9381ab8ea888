import PipelineEngine.Identifier.Short
import PipelineEngine.Store.Row
import PipelineEngine.Store.Transform

/-!
# Integrity of rows

What a row must satisfy to be stored: it has only declared columns, its required columns
have values, its foreign keys point at rows, and its unique keys are its own.
-/

namespace PipelineEngine

/-- Why the store refuses an operation. -/
inductive StoreError where
  | unknownTable (table : String)
  | unknownColumn (table column : String)
  | notNull (table column : String)
  /-- Another row has the same values in the columns of a key. -/
  | duplicateKey (table : String) (columns : List String)
  | missingReference (table constraint target : String)
  /-- Rows depend on a row through a key that does not let it change. -/
  | restricted (table constraint : String) (dependents : Nat)
  | transform (error : TransformError)
  /-- A column got no generated value. -/
  | shortId (error : ShortIdError)
deriving Repr, Inhabited, DecidableEq

def StoreError.message : StoreError → String
  | .unknownTable table => "Unknown table '" ++ table ++ "'"
  | .unknownColumn table column => "Unknown column '" ++ table ++ "." ++ column ++ "'"
  | .notNull table column => "Column '" ++ table ++ "." ++ column ++ "' may not be null"
  | .duplicateKey table columns =>
    "Duplicate key (" ++ ", ".intercalate columns ++ ") in table '" ++ table ++ "'"
  | .missingReference table constraint target =>
    "Row in '" ++ table ++ "' references a missing '" ++ target ++ "' row through '" ++
      constraint ++ "'"
  | .restricted table constraint dependents =>
    "'" ++ constraint ++ "' restricts this change: " ++ Numeral.decimal dependents ++
      " dependent row(s) in '" ++ table ++ "'"
  | .transform error => error.message
  | .shortId error => error.message

namespace ForeignKey

/-- Whether a row points through the key at a row: its local columns are not null and
equal the target columns. -/
def points (k : ForeignKey) (row target : Row) : Bool :=
  k.columns.all fun (localColumn, targetColumn) =>
    match row.get? localColumn, target.get? targetColumn with
    | some l, some r => !l.isNull && l.equal r
    | _, _ => false

/-- Whether a row has a value in every local column, so that it must point at a row. -/
def isComplete (k : ForeignKey) (row : Row) : Bool :=
  k.columns.all fun (localColumn, _) => row.holds localColumn

/-- The places of the rows that depend on a row through the key. -/
def dependents (k : ForeignKey) (d : Tables) (target : Row) : List Nat :=
  Tables.indices (d.rows k.table) (k.points · target)

end ForeignKey

/-- Checks that the foreign keys of a row point at rows. -/
def Model.checkReferences (m : Model) (t : Table) (row : Row) (d : Tables) :
    Except StoreError Unit :=
  match (m.keysFrom t.name).find? fun k =>
      k.isComplete row && !(d.rows k.target).any (k.points row) with
  | some k => .error (.missingReference t.name k.name k.target)
  | none => .ok ()

namespace Table

/-- The columns of each unique key: those of the primary key, then those of the
uniqueness constraints. -/
def uniqueKeys (t : Table) : List (List String) :=
  (t.primaryKey.map (·.name) :: (t.constraints.filter (·.kind = .unique)).map (·.columns)).filter
    fun key => !key.isEmpty

/-- Whether two rows have equal values in all columns of a key, none of them null. -/
def clashes (key : List String) (row other : Row) : Bool :=
  key.all fun name =>
    match row.get? name, other.get? name with
    | some v, some o => !v.isNull && o.equal v
    | _, _ => false

/-- Checks that the unique keys of a row are not those of other rows. -/
def checkUnique (t : Table) (row : Row) (others : List Row) : Except StoreError Unit :=
  match t.uniqueKeys.find? fun key => others.any (clashes key row) with
  | some key => .error (.duplicateKey t.name key)
  | none => .ok ()

/-- Checks that a row has only declared columns. -/
def checkColumns (t : Table) (row : Row) : Except StoreError Unit :=
  match row.names.find? fun name => (t.column? name).isNone with
  | some name => .error (.unknownColumn t.name name)
  | none => .ok ()

/-- Checks that changes leave the required columns with values. -/
def checkChanges (t : Table) (changes : Row) : Except StoreError Unit :=
  match changes.find? fun (name, value) =>
      value.isNull && (t.column? name).any (·.isRequired) with
  | some (name, _) => .error (.notNull t.name name)
  | none => .ok ()

end Table

end PipelineEngine
