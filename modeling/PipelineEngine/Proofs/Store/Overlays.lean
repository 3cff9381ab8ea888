import Mathlib.Data.List.Basic
import PipelineEngine.Proofs.Store.Cells

/-!
# Rows under overlays

What a list of overlays, written in turn, makes of each row.  An overlay rewrites one row
where it stands, so the rows of a table stay as many and in their order
(`Tables.rows_written`).

* `overlaid_of_nodup`: a row over which one overlay of the list is written.
* `overlaid_of_values`: a row over which the same values are written several times.
* `nodup_indices`, `nodup_matching`, `length_matching`: a search finds each place once.
-/

namespace PipelineEngine.Tables

/-! ## Searches -/

theorem indices_eq_map (rows : List Row) (test : Row → Bool) :
    indices rows test = (rows.zipIdx.filter fun entry => test entry.1).map (·.2) := by
  unfold indices
  induction rows.zipIdx with
  | nil => rfl
  | cons entry rest ih =>
    obtain ⟨row, i⟩ := entry
    cases htest : test row <;> simp [htest, ih]

theorem nodup_indices (rows : List Row) (test : Row → Bool) : (indices rows test).Nodup := by
  rw [indices_eq_map]
  refine List.Nodup.sublist (List.filter_sublist.map _) ?_
  rw [List.zipIdx_map_snd]
  exact List.nodup_range'

theorem nodup_matching (d : Tables) (table : String) (filter : Row) :
    (d.matching table filter).Nodup :=
  nodup_indices _ _

theorem length_matching (d : Tables) (table : String) (filter : Row) :
    (d.matching table filter).length = (d.rows table).countP (·.matchesAll filter) := by
  have hrows : (d.rows table).countP (·.matchesAll filter) =
      ((d.rows table).zipIdx.map (·.1)).countP (·.matchesAll filter) := by
    rw [List.zipIdx_map_fst]
  rw [matching, indices_eq_map, List.length_map, ← List.countP_eq_length_filter, hrows,
    List.countP_map]
  rfl

/-! ## Overlays -/

/-- What some overlays, written in turn, make of the row at a position. -/
def overlaid (p : Position) (overlays : List Overlay) (row : Row) : Row :=
  overlays.foldl (fun row o => if o.position = p then row.extend o.values else row) row

theorem row?_written (d : Tables) (overlays : List Overlay) (p : Position) :
    (d.written overlays).row? p = (d.row? p).map (overlaid p overlays) := by
  induction overlays generalizing d with
  | nil =>
    show d.row? p = (d.row? p).map id
    rw [Option.map_id_fun, id]
  | cons o rest ih =>
    rw [written_cons, ih, row?_overlay]
    by_cases hp : p = o.position
    · subst hp
      rw [if_pos rfl, Option.map_map]
      cases d.row? o.position with
      | none => rfl
      | some row => simp [overlaid]
    · rw [if_neg hp]
      cases d.row? p with
      | none => rfl
      | some row => simp [overlaid, Ne.symm hp]

/-- Overlays rewrite the rows of a table one by one, each at its place. -/
theorem rows_written {d : Tables} {overlays : List Overlay} {table : String} {f : Row → Row}
    (h : ∀ i row, d.row? ⟨table, i⟩ = some row → overlaid ⟨table, i⟩ overlays row = f row) :
    (d.written overlays).rows table = (d.rows table).map f := by
  refine List.ext_getElem? fun i => ?_
  rw [List.getElem?_map]
  show (d.written overlays).row? ⟨table, i⟩ = (d.row? ⟨table, i⟩).map f
  rw [row?_written]
  cases hrow : d.row? ⟨table, i⟩ with
  | none => rfl
  | some row => exact congrArg some (h i row hrow)

variable {p : Position} {overlays : List Overlay} {row : Row}

theorem overlaid_append (p : Position) (front back : List Overlay) (row : Row) :
    overlaid p (front ++ back) row = overlaid p back (overlaid p front row) :=
  List.foldl_append

theorem overlaid_flatMap {α : Type} (p : Position) (l : List α) (f : α → List Overlay)
    (row : Row) :
    overlaid p (l.flatMap f) row = l.foldl (fun row a => overlaid p (f a) row) row := by
  induction l generalizing row with
  | nil => rfl
  | cons a rest ih => rw [List.flatMap_cons, overlaid_append, ih, List.foldl_cons]

theorem overlaid_of_not_mem (h : ∀ o ∈ overlays, o.position ≠ p) :
    overlaid p overlays row = row := by
  induction overlays with
  | nil => rfl
  | cons o rest ih =>
    show overlaid p rest (if o.position = p then row.extend o.values else row) = row
    rw [if_neg (h o List.mem_cons_self), ih fun o' ho' => h o' (List.mem_cons_of_mem _ ho')]

/-- Where overlays lie at different positions, each is the only one over its row. -/
theorem overlaid_of_nodup (hnodup : (overlays.map (·.position)).Nodup) {o : Overlay}
    (ho : o ∈ overlays) : overlaid o.position overlays row = row.extend o.values := by
  obtain ⟨front, back, rfl⟩ := List.append_of_mem ho
  rw [List.map_append, List.map_cons, List.nodup_append] at hnodup
  obtain ⟨-, hback, hfront⟩ := hnodup
  have hbefore : ∀ o' ∈ front, o'.position ≠ o.position := fun o' ho' =>
    hfront _ (List.mem_map_of_mem ho') _ List.mem_cons_self
  have hafter : ∀ o' ∈ back, o'.position ≠ o.position := fun o' ho' heq =>
    (List.nodup_cons.1 hback).1 (heq ▸ List.mem_map_of_mem ho')
  rw [overlaid_append, overlaid_of_not_mem hbefore]
  show overlaid o.position back (if o.position = o.position then row.extend o.values else row) = _
  rw [if_pos rfl, overlaid_of_not_mem hafter]

/-- The same values written over a row several times are written once. -/
theorem overlaid_of_values {values : Row} (hvalues : ∀ o ∈ overlays, o.values = values)
    (hsorted : Fields.Sorted values) (hp : ∃ o ∈ overlays, o.position = p) :
    overlaid p overlays row = row.extend values := by
  induction overlays generalizing row with
  | nil => simp at hp
  | cons o rest ih =>
    have hrest : ∀ o ∈ rest, o.values = values := fun o' ho' =>
      hvalues o' (List.mem_cons_of_mem _ ho')
    show overlaid p rest (if o.position = p then row.extend o.values else row) = _
    rw [hvalues o List.mem_cons_self]
    -- Either a later overlay writes the values again or this one is the last to do so.
    by_cases hlater : ∃ o ∈ rest, o.position = p
    · rw [ih hrest hlater]
      split
      · exact Fields.extend_extend_self (Fields.nodup_names hsorted) row
      · rfl
    · have hnone : ∀ o ∈ rest, o.position ≠ p := fun o' ho' heq => hlater ⟨o', ho', heq⟩
      rw [overlaid_of_not_mem hnone]
      obtain ⟨o', ho', hpos⟩ := hp
      rcases List.mem_cons.1 ho' with rfl | ho'
      · rw [if_pos hpos]
      · exact absurd hpos (hnone o' ho')

end PipelineEngine.Tables
