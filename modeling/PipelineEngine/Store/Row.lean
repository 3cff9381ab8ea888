import PipelineEngine.Model.Basic
import PipelineEngine.Value.Compare

/-!
# Rows

The rows of the store, table by table.  A row is a map from column names to values, and
a position says where in the store a row is kept.

A predicate is a row as well: it matches the rows that hold equal values under its
names, and a null matches a name that is missing.
-/

namespace PipelineEngine

/-- A row: values by column name. -/
abbrev Row := Fields Value

/-- The rows of each table, in the order in which they were inserted. -/
abbrev Tables := Fields (List Row)

/-- Where a row is kept. -/
structure Position where
  table : String
  index : Nat
deriving Repr, Inhabited, DecidableEq

namespace Row

/-- Whether the row matches a predicate. -/
def matchesAll (row filter : Row) : Bool :=
  filter.all fun (name, expected) =>
    match row.get? name with
    | some actual => actual.equal expected
    | none => expected.isNull

/-- Whether the row has a value under a name that is not null. -/
def holds (row : Row) (name : String) : Bool :=
  match row.get? name with
  | some v => !v.isNull
  | none => false

end Row

namespace Tables

/-- The rows of a table. -/
def rows (d : Tables) (table : String) : List Row := (d.get? table).getD []

/-- The row at a position. -/
def row? (d : Tables) (p : Position) : Option Row := (d.rows p.table)[p.index]?

/-- The places in a list of rows at which a test holds. -/
def indices (rows : List Row) (test : Row → Bool) : List Nat :=
  rows.zipIdx.filterMap fun (row, i) => if test row then some i else none

/-- The places of the rows of a table that match a predicate. -/
def matching (d : Tables) (table : String) (filter : Row) : List Nat :=
  indices (d.rows table) (·.matchesAll filter)

/-- Adds a row to the end of a table. -/
def push (d : Tables) (table : String) (row : Row) : Tables := d.insert table (d.rows table ++ [row])

/-- Writes values over those of the row at a position. -/
def overlay (d : Tables) (p : Position) (changes : Row) : Tables :=
  d.insert p.table ((d.rows p.table).modify p.index (·.extend changes))

/-- Every position at which there is a row. -/
def positions (d : Tables) : List Position :=
  d.flatMap fun (table, rows) => (List.range rows.length).map (⟨table, ·⟩)

theorem mem_positions_of_row? {d : Tables} {p : Position} {row : Row} (h : d.row? p = some row) :
    p ∈ d.positions := by
  obtain ⟨table, index⟩ := p
  induction d with
  | nil => simp [row?, rows] at h
  | cons entry rest ih =>
    obtain ⟨name, stored⟩ := entry
    by_cases hn : table = name
    · subst hn
      have : index < stored.length := by
        simp only [row?, rows, Fields.get?, if_true, Option.getD_some] at h
        exact (List.getElem?_eq_some_iff.1 h).1
      simp [positions, this]
    · have h' : Tables.row? rest ⟨table, index⟩ = some row := by
        simpa [row?, rows, Fields.get?, hn] using h
      have := ih h'
      simp only [positions, List.flatMap_cons, List.mem_append]
      exact Or.inr this

end Tables

namespace Table

/-- What identifies a row: the values of its primary key, or the whole row when it has
none. -/
def keyOf (t : Table) (row : Row) : Row :=
  let key := Fields.ofList (t.primaryKey.filterMap fun c => (row.get? c.name).map (c.name, ·))
  if key.isEmpty then row else key

end Table

/-- What identifies a row of a table of a model. -/
def Model.keyOf (m : Model) (table : String) (row : Row) : Row :=
  match m.table? table with
  | some t => t.keyOf row
  | none => row

end PipelineEngine
