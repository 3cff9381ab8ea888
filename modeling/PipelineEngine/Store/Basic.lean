import PipelineEngine.Identifier.Snowflake
import PipelineEngine.Store.Deletion
import PipelineEngine.Store.Integrity

/-!
# The store

Rows kept in memory under the rules of a model.  Values go through the transforms of
their columns: those of a predicate before rows are compared with it, those of a row
before it is stored and after it is fetched.  Every change is reported as an event, once
the tables have changed.

An operation is a dialogue that answers with the store after it.
-/

namespace PipelineEngine

/-! ## Default values

Completing a row before it is stored: a column without a value gets one that its policy
generates, and a required column that still has none refuses the row.  So does a number
that cannot be shortened, which is used up all the same.
-/

/-- Generates the value of a policy, none when the policy generates nothing. -/
def SnowflakeSource.generate (s : SnowflakeSource) (shortener : Shortener) :
    DefaultPolicy → Dialogue (SnowflakeSource × Except ShortIdError (Option Value))
  | .none => return (s, .ok none)
  | .ulid => do
    let id ← Dialogue.uuid
    return (s, .ok (some (.string (Crockford.encode id.bits))))
  | .snowflake => do
    let (number, s) := s.next (← Dialogue.now)
    return (s, .ok (some (.int number)))
  | .sqid => do
    let (number, s) := s.next (← Dialogue.now)
    -- The sign of a snowflake counts as its highest bit.
    let text := shortener.shorten (number % Word.bound 64).toNat
    return (s, text.map fun text => some (.string text))

namespace Column

/-- The policy of a column of a model, whose declaration is known to be good. -/
def policy (c : Column) : DefaultPolicy := c.defaultPolicy.toOption.getD .none

/-- The row with a value in the column, if it is to have one. -/
def complete (c : Column) (shortener : Shortener) (table : String) (ids : SnowflakeSource)
    (row : Row) : Dialogue (SnowflakeSource × Except StoreError Row) := do
  if row.holds c.name then return (ids, .ok row)
  else
    match ← ids.generate shortener c.policy with
    | (ids, .error e) => return (ids, .error (.shortId e))
    | (ids, .ok (some value)) => return (ids, .ok (row.insert c.name value))
    | (ids, .ok none) =>
      if c.isRequired then return (ids, .error (.notNull table c.name)) else return (ids, .ok row)

end Column

namespace Table

/-- Completes a row column by column. -/
def completeWith (shortener : Shortener) (table : String) (ids : SnowflakeSource) :
    List Column → Row → Dialogue (SnowflakeSource × Except StoreError Row)
  | [], row => return (ids, .ok row)
  | c :: rest, row => do
    match ← c.complete shortener table ids row with
    | (ids, .ok row) => completeWith shortener table ids rest row
    | (ids, .error e) => return (ids, .error e)

/-- Completes a row for a table. -/
def completeRow (t : Table) (shortener : Shortener) (ids : SnowflakeSource) (row : Row) :
    Dialogue (SnowflakeSource × Except StoreError Row) :=
  completeWith shortener t.name ids t.columns row

end Table

/-! ## Operations -/

/-- The rows, and where generated values come from. -/
structure Store where
  tables : Tables
  ids : SnowflakeSource
deriving Inhabited

namespace Store

/-- A store without rows. -/
def empty (ids : SnowflakeSource) : Store := ⟨[], ids⟩

/-- What operations are carried out with: the model in force, the runner of column
transforms, and what writes generated numbers as short texts. -/
structure Rules where
  model : Model
  runner : Runner
  [shortener : Shortener]
deriving Inhabited

/-- The table of a name, when a row or a predicate fits it. -/
def Rules.tableFor (c : Rules) (table : String) (rows : List Row) :
    Except StoreError Table :=
  match c.model.table? table with
  | none => .error (.unknownTable table)
  | some t => do
    rows.forM t.checkColumns
    return t

/-- Transforms a row in a phase. -/
def Rules.transform (c : Rules) (t : Table) (phase : ColumnPhase) (row : Row) :
    Dialogue (Except StoreError Row) := do
  return (← t.transformRow c.runner c.model phase row).mapError .transform

/-- Transforms rows that were fetched, one after the other. -/
def Rules.fetchAll (c : Rules) (t : Table) : List Row → Dialogue (Except StoreError (List Row))
  | [] => return .ok []
  | row :: rest => do
    match ← c.transform t .read row with
    | .error e => return .error e
    | .ok row =>
      match ← c.fetchAll t rest with
      | .error e => return .error e
      | .ok rest => return .ok (row :: rest)

/-- Reports changes one after the other. -/
def report (user : Option String) : List RowChange → Dialogue Unit
  | [] => return ()
  | change :: rest => do
    Dialogue.emit (change.event (← Dialogue.now) user)
    report user rest

/-- Puts what an operation did to the tables in force, and reports it. -/
def commit (s : Store) (user : Option String) (result : Except StoreError Effect) :
    Dialogue (Store × Except StoreError Nat) := do
  match result with
  | .error e => return (s, .error e)
  | .ok effect =>
    report user effect.changes
    return ({ s with tables := effect.tables }, .ok effect.count)

/-- Inserts a row and answers with it as it is fetched. -/
def insert (s : Store) (c : Rules) (table : String) (row : Row) (user : Option String) :
    Dialogue (Store × Except StoreError Row) := do
  match c.tableFor table [row] with
  | .error e => return (s, .error e)
  | .ok t =>
    match ← c.transform t .write row with
    | .error e => return (s, .error e)
    | .ok row =>
      match ← t.completeRow c.shortener s.ids row with
      | (ids, .error e) => return ({ s with ids }, .error e)
      | (ids, .ok row) =>
        match ← commit { s with ids } user (s.tables.insertRow c.model t row) with
        | (s, .error e) => return (s, .error e)
        | (s, .ok _) => return (s, ← c.transform t .read row)

/-- Updates the rows that match a predicate and answers with their number. -/
def update (s : Store) (c : Rules) (table : String) (filter changes : Row)
    (user : Option String) : Dialogue (Store × Except StoreError Nat) := do
  match c.tableFor table [filter, changes] with
  | .error e => return (s, .error e)
  | .ok t =>
    match ← c.transform t .args filter with
    | .error e => return (s, .error e)
    | .ok filter =>
      match ← c.transform t .write changes with
      | .error e => return (s, .error e)
      | .ok changes =>
        commit s user do
          t.checkChanges changes
          s.tables.updateRows c.model t filter changes

/-- Deletes the rows that match a predicate, with those that depend on them, and answers
with the number of all. -/
def delete (s : Store) (c : Rules) (table : String) (filter : Row) (user : Option String) :
    Dialogue (Store × Except StoreError Nat) := do
  match c.tableFor table [filter] with
  | .error e => return (s, .error e)
  | .ok t =>
    match ← c.transform t .args filter with
    | .error e => return (s, .error e)
    | .ok filter => commit s user (s.tables.deleteRows c.model t filter)

/-- Fetches the rows that match a predicate. -/
def select (s : Store) (c : Rules) (table : String) (filter : Row) :
    Dialogue (Except StoreError (List Row)) := do
  match c.tableFor table [filter] with
  | .error e => return .error e
  | .ok t =>
    match ← c.transform t .args filter with
    | .error e => return .error e
    | .ok filter => c.fetchAll t ((s.tables.rows table).filter (·.matchesAll filter))

/-- The number of rows that match a predicate. -/
def count (s : Store) (c : Rules) (table : String) (filter : Row) :
    Dialogue (Except StoreError Nat) := do
  return (← s.select c table filter).map List.length

end Store

end PipelineEngine
