import PipelineEngine.Store.Change

/-!
# Deletion

The rows that go when some rows are deleted: with a row go the rows that depend on it
through cascading keys, and theirs.  A row that depends on one of them through a
restricting key, and is not known to go itself, forbids the deletion.

The rows still to be looked at are a stack, so the dependents found last are looked at
first, which decides about the key that is named when several forbid the deletion.
`doomedFrom` ends because each round either dooms a row that was not doomed before or
takes one off the stack.
-/

namespace PipelineEngine

namespace ForeignKey

/-- The rows that go with a row through the key, those already doomed left out. -/
def deleteDependents (k : ForeignKey) (d : Tables) (doomed : List Position) (row : Row) :
    Except StoreError (List Position) :=
  let pending := ((k.dependents d row).map (⟨k.table, ·⟩)).filter (· ∉ doomed)
  if pending.isEmpty then .ok []
  else
    match k.onDelete with
    | .restrict => .error (.restricted k.table k.name pending.length)
    | .cascade => .ok pending

end ForeignKey

namespace Tables

/-- The rows that go with a row. -/
def dependentsOf (d : Tables) (m : Model) (doomed : List Position) (table : String) (row : Row) :
    Except StoreError (List Position) :=
  List.flatten <$> (m.keysTo table).mapM fun k => k.deleteDependents d doomed row

/-- The rows that are not doomed. -/
def spared (d : Tables) (doomed : List Position) : List Position :=
  d.positions.filter (· ∉ doomed)

theorem length_spared_lt {d : Tables} {doomed : List Position} {p : Position}
    (h : p ∈ d.positions) (hp : p ∉ doomed) :
    (d.spared (p :: doomed)).length < (d.spared doomed).length := by
  have hsub : d.spared (p :: doomed) = (d.spared doomed).filter (· ≠ p) := by
    simp [spared, List.filter_filter, List.mem_cons]
  have hmem : p ∈ d.spared doomed := by simp [spared, h, hp]
  rw [hsub]
  exact List.length_filter_lt_length_iff_exists.2 ⟨p, hmem, by simp⟩

/-- The rows doomed by those on the stack, beside those already doomed. -/
def doomedFrom (d : Tables) (m : Model) :
    (stack doomed : List Position) → Except StoreError (List Position)
  | [], doomed => .ok doomed
  | p :: stack, doomed =>
    if p ∈ doomed then doomedFrom d m stack doomed
    else
      match _h : d.row? p with
      | none => doomedFrom d m stack doomed
      | some row =>
        match d.dependentsOf m (p :: doomed) p.table row with
        | .error e => .error e
        | .ok pending => doomedFrom d m (pending.reverse ++ stack) (p :: doomed)
termination_by stack doomed => ((d.spared doomed).length, stack.length)
decreasing_by
  · exact Prod.Lex.right _ (by simp)
  · exact Prod.Lex.right _ (by simp)
  · exact Prod.Lex.left _ _ (length_spared_lt (mem_positions_of_row? _h) ‹_›)

/-- The rows of a table whose places are not doomed. -/
def survivors (doomed : List Position) (table : String) (rows : List Row) : List Row :=
  rows.zipIdx.filterMap fun (row, i) => if ⟨table, i⟩ ∈ doomed then none else some row

/-- What happens to the rows of a table, from the last one to the first. -/
def removals (m : Model) (doomed : List Position) (table : String) (rows : List Row) :
    List RowChange :=
  rows.zipIdx.reverse.filterMap fun (row, i) =>
    if ⟨table, i⟩ ∈ doomed then some ⟨.delete, table, m.keyOf table row⟩ else none

/-- Removes the rows at some positions. -/
def removeAll (d : Tables) (m : Model) (doomed : List Position) : Effect :=
  let changes := d.flatMap fun (table, rows) => removals m doomed table rows
  ⟨d.map fun (table, rows) => (table, survivors doomed table rows), changes, changes.length⟩

/-- Deletes the rows that match a predicate, and those that go with them. -/
def deleteRows (d : Tables) (m : Model) (t : Table) (filter : Row) : Except StoreError Effect :=
  let matched := (d.matching t.name filter).map (⟨t.name, ·⟩)
  (d.doomedFrom m matched.reverse []).map (d.removeAll m)

end Tables

end PipelineEngine
