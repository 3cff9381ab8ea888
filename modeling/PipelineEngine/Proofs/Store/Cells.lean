import PipelineEngine.Proofs.Fields
import PipelineEngine.Proofs.Store.Checks

/-!
# Cells

A cell is what a position holds in a column.  The writes of the store are followed cell
by cell here: which rows an operation adds or changes, and what a list of overlays leaves
in a cell.

* `rows_push`, `row?_overlay`: the two ways in which a row gets into a table or changes.
* `cell?_written_of_unwritten`, `cell?_written_of_last`: a cell that no overlay writes
  keeps its value, and one in which all overlays agree has the value that they agree on.
* `mem_matching_iff`, `mem_dependents_iff`: which places a search finds.
-/

namespace PipelineEngine

/-! ## Rows and their places -/

namespace Tables

theorem mem_rows_iff {d : Tables} {table : String} {row : Row} :
    row ∈ d.rows table ↔ ∃ i, d.row? ⟨table, i⟩ = some row :=
  List.mem_iff_getElem?

theorem mem_rows_of_row? {d : Tables} {p : Position} {row : Row} (h : d.row? p = some row) :
    row ∈ d.rows p.table :=
  mem_rows_iff.2 ⟨p.index, h⟩

theorem mem_indices_iff {rows : List Row} {test : Row → Bool} {i : Nat} :
    i ∈ indices rows test ↔ ∃ row, rows[i]? = some row ∧ test row = true := by
  unfold indices
  rw [List.mem_filterMap]
  constructor
  · rintro ⟨⟨row, j⟩, hmem, hj⟩
    have hrow : rows[j]? = some row := List.mem_zipIdx_iff_getElem?.1 hmem
    cases htest : test row with
    | false => simp [htest] at hj
    | true =>
      obtain rfl : j = i := by simpa [htest] using hj
      exact ⟨row, hrow, htest⟩
  · rintro ⟨row, hrow, htest⟩
    exact ⟨(row, i), List.mem_zipIdx_iff_getElem?.2 hrow, by simp [htest]⟩

theorem mem_matching_iff {d : Tables} {table : String} {filter : Row} {i : Nat} :
    i ∈ d.matching table filter ↔
      ∃ row, d.row? ⟨table, i⟩ = some row ∧ row.matchesAll filter = true :=
  mem_indices_iff

end Tables

theorem ForeignKey.mem_dependents_iff {k : ForeignKey} {d : Tables} {target : Row} {i : Nat} :
    i ∈ k.dependents d target ↔
      ∃ row, d.row? ⟨k.table, i⟩ = some row ∧ k.points row target = true :=
  Tables.mem_indices_iff

namespace Tables

theorem rows_insert {d : Tables} {table other : String} {rows : List Row} :
    Tables.rows (Fields.insert table rows d) other =
      if other = table then rows else d.rows other := by
  unfold Tables.rows
  rw [Fields.get?_insert]
  split <;> rfl

/-- A row is added to the end of its table and to no other. -/
theorem rows_push {d : Tables} {table other : String} {row : Row} :
    (d.push table row).rows other =
      if other = table then d.rows table ++ [row] else d.rows other :=
  rows_insert

/-- An overlay changes the row at its position and no other. -/
theorem row?_overlay {d : Tables} {p q : Position} {changes : Row} :
    (d.overlay p changes).row? q =
      if q = p then (d.row? p).map (·.extend changes) else d.row? q := by
  obtain ⟨table, i⟩ := p
  obtain ⟨other, j⟩ := q
  simp only [Tables.row?, Tables.overlay, rows_insert, Position.mk.injEq]
  by_cases ht : other = table
  · subst ht
    by_cases hi : j = i
    · subst hi
      simp
    · simp [hi, Ne.symm hi]
  · simp [ht]

/-- An overlay neither adds rows nor removes them. -/
theorem isSome_row?_overlay {d : Tables} {p q : Position} {changes : Row} :
    ((d.overlay p changes).row? q).isSome = (d.row? q).isSome := by
  rw [row?_overlay]
  split
  · rename_i h
    rw [h, Option.isSome_map]
  · rfl

/-! ## Cells -/

/-- What is in a column of the row at a position. -/
def cell? (d : Tables) (p : Position) (column : String) : Option Value :=
  (d.row? p).bind (·.get? column)

theorem cell?_of_row? {d : Tables} {p : Position} {row : Row} (h : d.row? p = some row)
    (column : String) : d.cell? p column = row.get? column := by
  simp [cell?, h]

/-- The tables after some overlays, written in turn. -/
def written (d : Tables) (overlays : List Overlay) : Tables :=
  overlays.foldl (fun d o => d.overlay o.position o.values) d

@[simp] theorem written_cons (d : Tables) (o : Overlay) (rest : List Overlay) :
    d.written (o :: rest) = (d.overlay o.position o.values).written rest := rfl

theorem written_append (d : Tables) (front back : List Overlay) :
    d.written (front ++ back) = (d.written front).written back :=
  List.foldl_append

/-- The tables do not depend on the reports that are made along with them. -/
theorem overlayAll_fst (m : Model) (overlays : List Overlay) (d : Tables) :
    (overlayAll m overlays d).1 = d.written overlays := by
  induction overlays generalizing d with
  | nil => rfl
  | cons o rest ih => exact ih _

/-- Overlays neither add rows nor remove them. -/
theorem isSome_row?_written {d : Tables} {overlays : List Overlay} {p : Position} :
    ((d.written overlays).row? p).isSome = (d.row? p).isSome := by
  induction overlays generalizing d with
  | nil => rfl
  | cons o rest ih =>
    rw [written_cons, ih, isSome_row?_overlay]

/-- What an overlay leaves in a cell. -/
theorem cell?_overlay {d : Tables} {o : Overlay} (hsorted : Fields.Sorted o.values)
    {p : Position} {column : String} (hp : (d.row? p).isSome) :
    (d.overlay o.position o.values).cell? p column =
      if p = o.position then (Fields.get? o.values column).or (d.cell? p column)
      else d.cell? p column := by
  unfold cell?
  rw [row?_overlay]
  split
  · rename_i h
    subst h
    obtain ⟨row, hrow⟩ := Option.isSome_iff_exists.1 hp
    simp [hrow, Fields.get?_extend_of_sorted _ hsorted]
  · rfl

/-- A cell that no overlay writes keeps its value. -/
theorem cell?_written_of_unwritten {d : Tables} {overlays : List Overlay} {p : Position}
    {column : String} (hsorted : ∀ o ∈ overlays, Fields.Sorted o.values)
    (hp : (d.row? p).isSome)
    (h : ∀ o ∈ overlays, o.position = p → Fields.get? o.values column = none) :
    (d.written overlays).cell? p column = d.cell? p column := by
  induction overlays generalizing d with
  | nil => rfl
  | cons o rest ih =>
    have hp' : ((d.overlay o.position o.values).row? p).isSome :=
      isSome_row?_overlay.trans hp
    rw [written_cons, ih (fun o' ho' => hsorted o' (List.mem_cons_of_mem _ ho')) hp'
      (fun o' ho' => h o' (List.mem_cons_of_mem _ ho')),
      cell?_overlay (hsorted o List.mem_cons_self) hp]
    split
    · rename_i heq
      rw [h o List.mem_cons_self heq.symm, Option.none_or]
    · rfl

/-- A cell that some overlay writes, and that is written with one value only, has that
value. -/
theorem cell?_written_of_last {d : Tables} {overlays : List Overlay} {p : Position}
    {column : String} {v : Value} (hsorted : ∀ o ∈ overlays, Fields.Sorted o.values)
    (hp : (d.row? p).isSome)
    (hex : ∃ o ∈ overlays, o.position = p ∧ Fields.get? o.values column = some v)
    (h : ∀ o ∈ overlays, o.position = p →
      ∀ w, Fields.get? o.values column = some w → w = v) :
    (d.written overlays).cell? p column = some v := by
  induction overlays generalizing d with
  | nil =>
    obtain ⟨o, ho, -⟩ := hex
    cases ho
  | cons o rest ih =>
    have hp' : ((d.overlay o.position o.values).row? p).isSome :=
      isSome_row?_overlay.trans hp
    have hrest : ∀ o ∈ rest, Fields.Sorted o.values :=
      fun o' ho' => hsorted o' (List.mem_cons_of_mem _ ho')
    have hagree := fun o' ho' => h o' (List.mem_cons_of_mem _ ho')
    rw [written_cons]
    -- Either a later overlay writes the cell again or this one is the last to do so.
    by_cases hlater : ∃ o ∈ rest, o.position = p ∧ Fields.get? o.values column = some v
    · exact ih hrest hp' hlater hagree
    · have hnone : ∀ o ∈ rest, o.position = p → Fields.get? o.values column = none := by
        intro o' ho' hpos
        cases hget : Fields.get? o'.values column with
        | none => rfl
        | some w =>
          have hw : w = v := hagree o' ho' hpos w hget
          exact absurd ⟨o', ho', hpos, hw ▸ hget⟩ hlater
      obtain ⟨o', ho', hpos, hget⟩ := hex
      rcases List.mem_cons.1 ho' with rfl | ho'
      · rw [cell?_written_of_unwritten hrest hp' hnone,
          cell?_overlay (hsorted o' List.mem_cons_self) hp, if_pos hpos.symm, hget,
          Option.some_or]
      · exact absurd ⟨o', ho', hpos, hget⟩ hlater

end Tables

end PipelineEngine
