import PipelineEngine.Store.Integrity
import PipelineEngine.Trigger.Basic

/-!
# Changes of tables

The three ways in which the tables change: a row is inserted, rows are updated, rows are
deleted.  Each is a function of the tables that either refuses or answers with the new
tables and the changes that it made, row by row.

An update checks the rows as they would be after it, and carries new values on to the
rows that depend on them through cascading keys.
-/

namespace PipelineEngine

/-- What happened to one row. -/
structure RowChange where
  kind : ChangeKind
  table : String
  /-- What identifies the row. -/
  key : Row
deriving Inhabited

namespace RowChange

/-- The event of a change. -/
def event (c : RowChange) (time : Instant) (user : Option String) : TableEvent :=
  .ofChange c.table c.key time user c.kind

end RowChange

/-- What an accepted operation did. -/
structure Effect where
  tables : Tables
  changes : List RowChange
  /-- The number of rows that the operation counts. -/
  count : Nat
deriving Inhabited

namespace Tables

/-- Inserts a row. -/
def insertRow (d : Tables) (m : Model) (t : Table) (row : Row) : Except StoreError Effect := do
  m.checkReferences t row d
  t.checkUnique row (d.rows t.name)
  return ⟨d.push t.name row, [⟨.insert, t.name, t.keyOf row⟩], 1⟩

end Tables

/-! ## Updates -/

/-- Values that are written over those of a row. -/
structure Overlay where
  position : Position
  values : Row
deriving Inhabited

namespace ForeignKey

/-- Whether changes give a row other values in the columns that the key points at. -/
def isMoved (k : ForeignKey) (old changes : Row) : Bool :=
  k.columns.any fun (_, target) =>
    match changes.get? target with
    | some new => !(old.get? target).any fun o => o.equal new
    | none => false

/-- What changes of a row mean for the rows that point at it. -/
def carried (k : ForeignKey) (changes : Row) : Row :=
  Fields.ofList (k.columns.filterMap fun (localColumn, target) =>
    (changes.get? target).map (localColumn, ·))

/-- What an update of a row carries on through the key. -/
def updateOverlays (k : ForeignKey) (d : Tables) (changes old : Row) :
    Except StoreError (List Overlay) :=
  if k.isMoved old changes then
    let dependents := k.dependents d old
    if dependents.isEmpty then .ok []
    else
      match k.onUpdate with
      | .restrict => .error (.restricted k.table k.name dependents.length)
      | .cascade => .ok (dependents.map fun i => ⟨⟨k.table, i⟩, k.carried changes⟩)
  else .ok []

end ForeignKey

namespace Tables

/-- Writes values over rows in turn.  Each change reports the row as it then is. -/
def overlayAll (m : Model) : List Overlay → Tables → Tables × List RowChange
  | [], d => (d, [])
  | o :: rest, d =>
    let d := d.overlay o.position o.values
    let change := ⟨.update, o.position.table, m.keyOf o.position.table ((d.row? o.position).getD [])⟩
    let (d, changes) := overlayAll m rest d
    (d, change :: changes)

/-- Checks one of the rows of a table that an update would leave. -/
def checkUpdated (d : Tables) (m : Model) (t : Table) (after : List Row) (index : Nat) :
    Except StoreError Unit := do
  let row := after[index]?.getD []
  m.checkReferences t row d
  t.checkUnique row (after.eraseIdx index)

/-- What the update of rows of a table carries on to other rows. -/
def cascades (d : Tables) (m : Model) (t : Table) (changes : Row) (matched : List Nat) :
    Except StoreError (List Overlay) := do
  let found ← (m.keysTo t.name).mapM fun k =>
    matched.mapM fun i => k.updateOverlays d changes ((d.row? ⟨t.name, i⟩).getD [])
  return found.flatten.flatten

/-- Updates the rows that match a predicate. -/
def updateRows (d : Tables) (m : Model) (t : Table) (filter changes : Row) :
    Except StoreError Effect := do
  let matched := d.matching t.name filter
  let own : List Overlay := matched.map fun i => ⟨⟨t.name, i⟩, changes⟩
  let after := (own.foldl (fun (d : Tables) o => d.overlay o.position o.values) d).rows t.name
  matched.forM (checkUpdated d m t after)
  let carried ← d.cascades m t changes matched
  let (tables, changes) := overlayAll m (own ++ carried) d
  return ⟨tables, changes, matched.length⟩

end Tables

end PipelineEngine
