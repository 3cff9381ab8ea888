import PipelineEngine.Proofs.Store.History

/-!
# Referential integrity

Every row that has a value in each local column of a foreign key points through it at a
row.  Insertions check this and deletions remove the dependents of what they remove, so
both keep it.

An update checks only the rows that it matches, before it carries anything on.  Two
things come later than that check: a value that is carried into a local column of the key
(`Update.CarriesInto`), and a write to a row unsettles the rows that point at it
(`Update.Unsettles`).  The one case that comes out right by itself is a row that takes
over the new values of the row it pointed at and nothing else (`Update.Follows`).

* `Update.isReferential_iff`: what one update does to the property.
* `Store.History.forall_isReferential_iff`: what this means for all states of a store.
-/

namespace PipelineEngine

/-- Every row that has a value in each local column of a key points through it at a
row. -/
def Model.IsReferential (m : Model) (d : Tables) : Prop :=
  ∀ k ∈ m.foreignKeys, ∀ row ∈ d.rows k.table, k.isComplete row = true →
    ∃ target ∈ d.rows k.target, k.points row target = true

instance (m : Model) (d : Tables) : Decidable (m.IsReferential d) :=
  inferInstanceAs (Decidable (∀ k ∈ m.foreignKeys, ∀ row ∈ d.rows k.table,
    k.isComplete row = true → ∃ target ∈ d.rows k.target, k.points row target = true))

theorem Model.isReferential_nil (m : Model) : m.IsReferential [] := by
  intro k _ row hrow
  cases hrow

theorem Insertion.isReferential {m : Model} (i : Insertion m) (h : m.IsReferential i.before) :
    m.IsReferential i.after := by
  intro k hk row hrow hcomplete
  have hbefore : ∃ target ∈ i.before.rows k.target, k.points row target = true := by
    rcases i.mem_rows_of_after hrow with hrow | ⟨htable, rfl⟩
    · exact h k hk row hrow hcomplete
    · exact Model.checkReferences_eq_ok_iff.1 i.checked.1 k
        (Model.mem_keysFrom_iff.2 ⟨hk, htable⟩) hcomplete
  obtain ⟨target, htarget, hpoints⟩ := hbefore
  exact ⟨target, i.mem_rows_after htarget, hpoints⟩

theorem Deletion.isReferential {m : Model} (x : Deletion m) (h : m.IsReferential x.before) :
    m.IsReferential x.after := by
  obtain ⟨doomed, hclosed, hrows⟩ := x.exists_doomed
  intro k hk row hrow hcomplete
  rw [hrows, Tables.mem_survivors_iff] at hrow
  obtain ⟨i, hrow, hspared⟩ := hrow
  obtain ⟨target, htarget, hpoints⟩ := h k hk row (List.mem_of_getElem? hrow) hcomplete
  obtain ⟨j, hj⟩ := Tables.mem_rows_iff.1 htarget
  refine ⟨target, ?_, hpoints⟩
  rw [hrows, Tables.mem_survivors_iff]
  refine ⟨j, hj, ?_⟩
  -- Were the target to go, the row would have gone with it.
  intro hdoomed
  exact hspared (hclosed k hk ⟨k.table, i⟩ ⟨k.target, j⟩ hdoomed
    ⟨rfl, rfl, row, target, hrow, hj, hpoints⟩)

namespace Update

variable {m : Model} (u : Update m)

/-! ## What an update does behind its own check -/

/-- The update writes to a row, in a column of the key, at which the given row pointed
before. -/
def Unsettles (k : ForeignKey) (row : Row) : Prop :=
  ∃ q target, q.table = k.target ∧ u.before.row? q = some target ∧
    k.points row target = true ∧ ∃ column ∈ k.referenced,
      u.Writes q column ∨ ∃ via, u.WritesThrough via q column

/-- The row at `p` takes over the changes of the row at `q` to which it points through
the key: what is carried into its columns are these changes, the columns that do not
change are left alone, and nothing else is carried on to the row at `q`. -/
def FollowsFrom (k : ForeignKey) (q p : Position) : Prop :=
  u.CarriesFrom k q p ∧ ∀ link ∈ k.columns,
    (∀ via, ¬ u.WritesThrough via q link.2) ∧
      (∀ via, u.WritesThrough via p link.1 →
        Fields.get? (via.carried u.changes) link.1 = Fields.get? u.changes link.2) ∧
      (Fields.get? u.changes link.2 = none → ¬ u.Writes p link.1) ∧
      ∀ v, Fields.get? u.changes link.2 = some v → v.equal v = true

def Follows (k : ForeignKey) (p : Position) : Prop := ∃ q, u.FollowsFrom k q p

/-- Each row whose reference the update touched without checking it has a row to point
at. -/
def LeavesTargets : Prop :=
  ∀ k ∈ m.foreignKeys, ∀ p row, p.table = k.table → u.after.row? p = some row →
    k.isComplete row = true → u.CarriesInto k.locals p ∨ u.Unsettles k row → ¬ u.Follows k p →
      ∃ target ∈ u.after.rows k.target, k.points row target = true

/-! ## Rows that still point at something -/

/-- What a row points at through the key while nothing was carried into its columns. -/
theorem exists_target_of_not_carriesInto {k : ForeignKey} (hk : k ∈ m.foreignKeys)
    (h : m.IsReferential u.before) {p : Position} {row : Row} (htable : p.table = k.table)
    (hrow : u.after.row? p = some row) (hcomplete : k.isComplete row = true)
    (hp : ¬ u.CarriesInto k.locals p) :
    ∃ target ∈ u.before.rows k.target, k.points row target = true := by
  obtain ⟨row', hrow', hlocals⟩ := u.exists_checked_of_not_carriesInto hrow hp
  have hcomplete' : k.isComplete row' = true := by
    rw [← ForeignKey.isComplete_congr hlocals]
    exact hcomplete
  have htarget : ∃ target ∈ u.before.rows k.target, k.points row' target = true := by
    by_cases hmatches : u.Matches p
    · exact u.references_of_matches hmatches hrow' hk htable hcomplete'
    · -- The update leaves the row alone altogether.
      obtain ⟨old, hold, hsame⟩ := u.exists_before_of_not_matches hrow' hmatches
      have hold' : old ∈ u.before.rows k.table := htable ▸ Tables.mem_rows_of_row? hold
      rw [ForeignKey.isComplete_congr fun column _ => hsame column] at hcomplete'
      obtain ⟨target, htarget, hpoints⟩ := h k hk old hold' hcomplete'
      refine ⟨target, htarget, ?_⟩
      rw [ForeignKey.points_congr (fun column _ => hsame column) fun _ _ => rfl]
      exact hpoints
  obtain ⟨target, htarget, hpoints⟩ := htarget
  refine ⟨target, htarget, ?_⟩
  rw [ForeignKey.points_congr hlocals fun _ _ => rfl]
  exact hpoints

/-- A row that is neither redirected nor unsettled has a row to point at. -/
theorem exists_target_of_untouched {k : ForeignKey} (hk : k ∈ m.foreignKeys)
    (h : m.IsReferential u.before) {p : Position} {row : Row} (htable : p.table = k.table)
    (hrow : u.after.row? p = some row) (hcomplete : k.isComplete row = true)
    (hp : ¬ u.CarriesInto k.locals p) (hq : ¬ u.Unsettles k row) :
    ∃ target ∈ u.after.rows k.target, k.points row target = true := by
  obtain ⟨target, htarget, hpoints⟩ :=
    u.exists_target_of_not_carriesInto hk h htable hrow hcomplete hp
  obtain ⟨j, hj⟩ := Tables.mem_rows_iff.1 htarget
  have hafter : (u.after.row? ⟨k.target, j⟩).isSome := by
    rw [u.isSome_row?_after, hj]
    rfl
  obtain ⟨target', htarget'⟩ := Option.isSome_iff_exists.1 hafter
  refine ⟨target', Tables.mem_rows_of_row? htarget', ?_⟩
  have hreferenced : ∀ column ∈ k.referenced, target'.get? column = target.get? column := by
    intro column hcolumn
    rw [← Tables.cell?_of_row? htarget', ← Tables.cell?_of_row? hj]
    have hunwritten : ¬ (u.Writes ⟨k.target, j⟩ column ∨
        ∃ via, u.WritesThrough via ⟨k.target, j⟩ column) :=
      fun hwritten => hq ⟨⟨k.target, j⟩, target, rfl, hj, hpoints, column, hcolumn, hwritten⟩
    rw [not_or, not_exists] at hunwritten
    exact u.cell?_after_of_not_written hunwritten.1 hunwritten.2
  rw [ForeignKey.points_congr (fun _ _ => rfl) hreferenced]
  exact hpoints

/-- A row that follows the row to which it points goes on pointing at it. -/
theorem exists_target_of_follows {k : ForeignKey} {p : Position} {row : Row}
    (hrow : u.after.row? p = some row) (hcomplete : k.isComplete row = true)
    (h : u.Follows k p) : ∃ target ∈ u.after.rows k.target, k.points row target = true := by
  obtain ⟨q, hcarries, hlinks⟩ := h
  have hq : u.Matches q := hcarries.2.1
  obtain ⟨-, htarget, old, oldTarget, hold, holdTarget, hpoints⟩ := hcarries.2.2.1
  have hafter : (u.after.row? q).isSome := by
    rw [u.isSome_row?_after, holdTarget]
    rfl
  obtain ⟨target, htargetRow⟩ := Option.isSome_iff_exists.1 hafter
  refine ⟨target, htarget ▸ Tables.mem_rows_of_row? htargetRow, ?_⟩
  rw [ForeignKey.points_iff]
  intro link hlink
  obtain ⟨huncarried, hcarried, hunwritten, hequal⟩ := hlinks link hlink
  have hholds := ForeignKey.isComplete_iff.1 hcomplete link hlink
  obtain ⟨l, hl, hnull⟩ := Row.holds_iff.1 hholds
  have hcell : target.get? link.2 = u.checked.cell? q link.2 := by
    rw [← Tables.cell?_of_row? htargetRow]
    exact u.cell?_after_of_not_carried huncarried
  cases hchange : Fields.get? u.changes link.2 with
  | some v =>
    have hthrough : (Fields.get? (k.carried u.changes) link.1).isSome := by
      rw [Fields.isSome_get?_iff]
      exact ForeignKey.mem_names_carried hlink hchange
    have hwrites : u.WritesThrough k p link.1 := ⟨⟨q, hcarries⟩, hthrough⟩
    have hnew : u.after.cell? p link.1 = some v := by
      refine u.cell?_after_of_carried hwrites.1 ?_ ?_
      · rw [hcarried k hwrites, hchange]
      · intro via hvia
        rw [hcarried via hvia, hchange]
    rw [Tables.cell?_of_row? hrow, hl] at hnew
    obtain rfl : l = v := Option.some.inj hnew
    rw [u.cell?_checked_of_matches hq hchange] at hcell
    exact ⟨l, l, hl, hcell, hnull, hequal l hchange⟩
  | none =>
    have hlocal : u.after.cell? p link.1 = u.before.cell? p link.1 := by
      refine u.cell?_after_of_not_written (hunwritten hchange) ?_
      intro via hvia
      have hsome := hvia.2
      rw [hcarried via hvia, hchange] at hsome
      cases hsome
    have hsame : u.checked.cell? q link.2 = u.before.cell? q link.2 := by
      refine u.cell?_checked_of_not_writes fun hwrites => ?_
      have hsome := hwrites.2
      rw [hchange] at hsome
      cases hsome
    rw [Tables.cell?_of_row? hrow, Tables.cell?_of_row? hold] at hlocal
    rw [hsame, Tables.cell?_of_row? holdTarget] at hcell
    obtain ⟨l', r, hl', hr, hnull', hequal'⟩ := ForeignKey.points_iff.1 hpoints link hlink
    exact ⟨l', r, hlocal.trans hl', hcell.trans hr, hnull', hequal'⟩

/-- An update keeps referential integrity exactly when the rows whose references it
touched behind its check have rows to point at. -/
theorem isReferential_iff (h : m.IsReferential u.before) :
    m.IsReferential u.after ↔ u.LeavesTargets := by
  constructor
  · intro hafter k hk p row htable hrow hcomplete _ _
    exact hafter k hk row (htable ▸ Tables.mem_rows_of_row? hrow) hcomplete
  · intro hleaves k hk row hmem hcomplete
    obtain ⟨i, hrow⟩ := Tables.mem_rows_iff.1 hmem
    by_cases htouched : u.CarriesInto k.locals ⟨k.table, i⟩ ∨ u.Unsettles k row
    · by_cases hfollows : u.Follows k ⟨k.table, i⟩
      · exact u.exists_target_of_follows hrow hcomplete hfollows
      · exact hleaves k hk ⟨k.table, i⟩ row rfl hrow hcomplete htouched hfollows
    · rw [not_or] at htouched
      exact u.exists_target_of_untouched hk h rfl hrow hcomplete htouched.1 htouched.2

end Update

namespace Store

/-- All states of a store have referential integrity exactly when each update left rows
for the references that it touched without checking them. -/
theorem History.forall_isReferential_iff {c : Rules} {states : List Store} (h : History c states) :
    (∀ s ∈ states, c.model.IsReferential s.tables) ↔
      ∀ u : Update c.model, u.Within states → u.LeavesTargets :=
  h.forall_iff c.model.isReferential_nil (fun i => i.isReferential) (fun x => x.isReferential)
    fun u => u.isReferential_iff

/-! ### A child that follows its parent, and a node that loses itself -/

/-- Parents, and children that follow them. -/
def families : List Table := [
  ⟨"parent", [.ofNumbers "id" true true], [], none⟩,
  ⟨"child", [.ofNumbers "parent" true true],
    [.reference "family" "parent" "parent.id" .cascade], none⟩]

/-- A parent gets another number, and its child follows. -/
def familyMove : List Operation := [
  .insert "parent" [("id", .int 1)] none,
  .insert "child" [("parent", .int 1)] none,
  .update "parent" [("id", .int 1)] [("id", .int 2)] none]

/-- Nodes that may point at other nodes. -/
def nodes : List Table := [
  ⟨"node", [.ofNumbers "id" true true, .ofNumbers "parent" false true],
    [.reference "tree" "parent" "node.id" .restrict], none⟩]

/-- A node gets another number and is to point at the one that it had.  The check finds
the row under its old number. -/
def nodeMove : List Operation := [
  .insert "node" [("id", .int 1)] none,
  .update "node" [("id", .int 1)] [("id", .int 2), ("parent", .int 1)] none]

theorem leavesTargets_of_familyMove :
    History (.ofTables families) (statesOf families familyMove) ∧
      ∀ u : Update (Rules.ofTables families).model,
        u.Within (statesOf families familyMove) → u.LeavesTargets := by
  have h : History (.ofTables families) (statesOf families familyMove) :=
    history_statesOf (by decide)
  exact ⟨h, (History.forall_isReferential_iff h).1 (by decide)⟩

theorem not_isReferential_of_nodeMove :
    (Document.ofTables nodes).link 0 = .ok (Rules.ofTables nodes).model ∧
      History (.ofTables nodes) (statesOf nodes nodeMove) ∧
        ∃ s ∈ statesOf nodes nodeMove, ¬ (Rules.ofTables nodes).model.IsReferential s.tables := by
  refine ⟨rfl, history_statesOf ?_, ?_⟩
  · decide
  · decide

end Store

end PipelineEngine
