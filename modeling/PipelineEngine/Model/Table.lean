import PipelineEngine.Model.Plan

/-!
# Faults of tables

What can be wrong with the tables of a document, and the foreign keys that they
declare.
-/

namespace PipelineEngine

/-- A foreign key whose two ends are known. -/
structure ForeignKey where
  /-- The table that holds the constraint. -/
  table : String
  name : String
  target : String
  /-- The links from a local column to a target column, in declaration order. -/
  columns : List (String × String)
  onDelete : ReferentialAction
  onUpdate : ReferentialAction
deriving Repr, Inhabited, DecidableEq

namespace Constraint

/-- The table and column that a link of a foreign key points at, or why it points at
nothing. -/
def linkTarget (d : Document) (m : Mapping) : Except String (String × String) :=
  match m.destination with
  | none => .error ("mapping from '" ++ m.source ++ "' has no target")
  | some text =>
    match Text.cutLast? '.' text.toList with
    | none => .error ("target '" ++ text ++ "' must be table.column")
    | some (before, after) =>
      let target := String.ofList before
      let column := String.ofList after
      match d.table? target with
      | none => .error ("table '" ++ target ++ "' does not exist")
      | some t =>
        if (t.column? column).isNone then .error ("column '" ++ text ++ "' does not exist")
        else .ok (target, column)

/-- The faults of the links of a foreign key.  All must point at one table, the one that
the first link to point at any points at. -/
def linkFaults (d : Document) (t : Table) (label : String) :
    Option String → List Mapping → List ConfigFault
  | _, [] => []
  | target, m :: rest =>
    let here :=
      if (t.column? m.source).isNone then
        [ConfigFault.unknownColumn ("constraint '" ++ label ++ "'") m.source]
      else []
    match linkTarget d m with
    | .error reason =>
      here ++ .unresolvedForeignKey t.name label reason :: linkFaults d t label target rest
    | .ok (table, _) =>
      match target with
      | none => here ++ linkFaults d t label (some table) rest
      | some other =>
        if other = table then here ++ linkFaults d t label target rest
        else
          here ++ .unresolvedForeignKey t.name label
            ("mappings target both '" ++ other ++ "' and '" ++ table ++ "'") ::
              linkFaults d t label target rest

/-- The faults of a constraint. -/
def faults (d : Document) (t : Table) (index : Nat) (c : Constraint) : List ConfigFault :=
  let label := c.label t.name index
  match c.kind with
  | .unique =>
    (c.columns.filter fun column => (t.column? column).isNone).map fun column =>
      .unknownColumn ("constraint '" ++ label ++ "'") column
  | .foreignKey =>
    if c.mappings.isEmpty then [.unresolvedForeignKey t.name label "no column mappings"]
    else linkFaults d t label none c.mappings

/-- The foreign key that a constraint declares. -/
def foreignKey? (d : Document) (t : Table) (index : Nat) (c : Constraint) : Option ForeignKey :=
  match c.kind with
  | .unique => none
  | .foreignKey => do
    let links ← c.mappings.mapM fun m => do
      let (table, column) ← (linkTarget d m).toOption
      return (table, m.source, column)
    let (target, _) ← links.head?
    return {
      table := t.name
      name := c.label t.name index
      target := target
      columns := links.map fun (_, source, column) => (source, column)
      onDelete := c.onDelete.getD .restrict
      onUpdate := c.onUpdate.getD .restrict }

end Constraint

namespace Column

/-- The faults of the transforms of a column. -/
def phaseFaults (d : Document) (t : Table) (c : Column) (phase : ColumnPhase) : List ConfigFault :=
  Plan.faults d ("column '" ++ t.name ++ "." ++ c.name ++ "' " ++ phase.name ++ " phase")
    (Plan.ofSteps (c.phaseSteps phase)) true

/-- The faults of a column. -/
def faults (d : Document) (t : Table) (c : Column) : List ConfigFault :=
  (match c.defaultPolicy with
    | .error e => [.columnDefault t.name c.name e]
    | .ok _ => []) ++
    [ColumnPhase.args, .write, .read].flatMap (phaseFaults d t c)

end Column

namespace Table

/-- The faults of a table. -/
def faults (d : Document) (t : Table) : List ConfigFault :=
  ConfigFault.ofNames "column" ("table '" ++ t.name ++ "'") (t.columns.map (·.name)) ++
    t.columns.flatMap (Column.faults d t) ++
    t.constraints.zipIdx.flatMap (fun (c, index) => c.faults d t index) ++
    match t.wellKnown with
    | none => []
    | some role =>
      (role.mappings.filter fun m => (t.column? m.source).isNone).map fun m =>
        .unknownColumn ("well-known binding of table '" ++ t.name ++ "'") m.source

/-- The foreign keys that a table declares. -/
def foreignKeys (d : Document) (t : Table) : List ForeignKey :=
  t.constraints.zipIdx.filterMap fun (c, index) => c.foreignKey? d t index

end Table

namespace Document

/-- The faults of all tables. -/
def tableFaults (d : Document) : List ConfigFault :=
  ConfigFault.ofNames "table" "document" (d.tables.map (·.name)) ++ d.tables.flatMap (Table.faults d)

/-- The foreign keys of all tables. -/
def foreignKeys (d : Document) : List ForeignKey := d.tables.flatMap (Table.foreignKeys d)

end Document

end PipelineEngine
