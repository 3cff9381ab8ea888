import PipelineEngine.Proofs.Fallible
import PipelineEngine.Proofs.Store.Cells
import PipelineEngine.Store.Deletion

/-!
# The rows that go

Which rows a deletion takes along.  The rows doomed so far and those on the stack together
contain every row that depends on a doomed one (`Covered`).  Each round of `doomedFrom`
keeps this, and at its end the stack is empty, so nothing that stays depends on a row
that goes (`dependent_mem_doomed`).
-/

namespace PipelineEngine

namespace Tables

/-- The row at `p` points through the key at the row at `q`. -/
def Depends (d : Tables) (k : ForeignKey) (p q : Position) : Prop :=
  p.table = k.table ∧ q.table = k.target ∧ ∃ row target,
    d.row? p = some row ∧ d.row? q = some target ∧ k.points row target = true

/-- Every row that depends on a doomed row is doomed itself or still to be looked at. -/
def Covered (d : Tables) (m : Model) (doomed pending : List Position) : Prop :=
  ∀ k ∈ m.foreignKeys, ∀ p q, q ∈ doomed → d.Depends k p q → p ∈ doomed ∨ p ∈ pending

theorem covered_nil (d : Tables) (m : Model) (pending : List Position) :
    d.Covered m [] pending := by
  intro k _ p q hq
  cases hq

end Tables

/-- A key that lets a row go has looked at all rows that depend on it. -/
theorem ForeignKey.mem_of_deleteDependents {k : ForeignKey} {d : Tables}
    {doomed pending : List Position} {row : Row} {i : Nat}
    (h : k.deleteDependents d doomed row = .ok pending) (hi : i ∈ k.dependents d row) :
    ⟨k.table, i⟩ ∈ doomed ∨ ⟨k.table, i⟩ ∈ pending := by
  by_cases hdoomed : (⟨k.table, i⟩ : Position) ∈ doomed
  · exact Or.inl hdoomed
  · have hmem : (⟨k.table, i⟩ : Position) ∈
        ((k.dependents d row).map (⟨k.table, ·⟩ : Nat → Position)).filter (· ∉ doomed) :=
      List.mem_filter.2 ⟨List.mem_map.2 ⟨i, hi, rfl⟩, by simpa using hdoomed⟩
    simp only [deleteDependents] at h
    split at h
    · rename_i hempty
      rw [List.isEmpty_iff.1 hempty] at hmem
      cases hmem
    · split at h
      · cases h
      · cases h
        exact Or.inr hmem

namespace Tables

/-- The rows found beside a doomed row are all that depend on it and were not doomed. -/
theorem mem_of_dependentsOf {d : Tables} {m : Model} {doomed pending : List Position}
    {table : String} {row : Row} (h : d.dependentsOf m doomed table row = .ok pending)
    {k : ForeignKey} (hk : k ∈ m.keysTo table) {i : Nat} (hi : i ∈ k.dependents d row) :
    ⟨k.table, i⟩ ∈ doomed ∨ ⟨k.table, i⟩ ∈ pending := by
  obtain ⟨found, hfound, hflat⟩ := Fallible.map_eq_ok_iff.1 h
  obtain ⟨here, hhere, hkey⟩ := (Fallible.of_mapM_eq_ok hfound).1 k hk
  rcases k.mem_of_deleteDependents hkey hi with hmem | hmem
  · exact Or.inl hmem
  · exact Or.inr (hflat ▸ List.mem_flatten.2 ⟨here, hhere, hmem⟩)

/-- One round: a row goes, and what depends on it is put on the stack. -/
theorem Covered.doom {d : Tables} {m : Model} {doomed stack pending : List Position}
    {p : Position} {row : Row} (hrow : d.row? p = some row)
    (hpending : d.dependentsOf m (p :: doomed) p.table row = .ok pending)
    (h : d.Covered m doomed (p :: stack)) :
    d.Covered m (p :: doomed) (pending.reverse ++ stack) := by
  intro k hk p' q hq hdepends
  rcases List.mem_cons.1 hq with rfl | hq
  · obtain ⟨htable, htarget, row', target, hrow', htarget', hpoints⟩ := hdepends
    obtain ⟨table, i⟩ := p'
    obtain rfl : table = k.table := htable
    obtain rfl : target = row := by
      rw [hrow] at htarget'
      exact (Option.some.inj htarget').symm
    have hi : i ∈ k.dependents d target := ForeignKey.mem_dependents_iff.2 ⟨row', hrow', hpoints⟩
    rcases mem_of_dependentsOf hpending (Model.mem_keysTo_iff.2 ⟨hk, htarget.symm⟩) hi with
      hmem | hmem
    · exact Or.inl hmem
    · exact Or.inr (List.mem_append.2 (Or.inl (List.mem_reverse.2 hmem)))
  · rcases h k hk p' q hq hdepends with hmem | hmem
    · exact Or.inl (List.mem_cons_of_mem _ hmem)
    · rcases List.mem_cons.1 hmem with rfl | hmem
      · exact Or.inl List.mem_cons_self
      · exact Or.inr (List.mem_append.2 (Or.inr hmem))

/-- A row on the stack that is doomed already can be taken off it. -/
theorem Covered.skip {d : Tables} {m : Model} {doomed stack : List Position} {p : Position}
    (hp : p ∈ doomed ∨ d.row? p = none) (h : d.Covered m doomed (p :: stack)) :
    d.Covered m doomed stack := by
  intro k hk p' q hq hdepends
  rcases h k hk p' q hq hdepends with hmem | hmem
  · exact Or.inl hmem
  · rcases List.mem_cons.1 hmem with rfl | hmem
    · rcases hp with hp | hp
      · exact Or.inl hp
      · -- A place without a row depends on nothing.
        obtain ⟨-, -, row, -, hrow, -⟩ := hdepends
        rw [hp] at hrow
        cases hrow
    · exact Or.inr hmem

/-! ## The rounds -/

theorem doomedFrom_of_mem {d : Tables} {m : Model} {doomed stack : List Position} {p : Position}
    (hp : p ∈ doomed) : d.doomedFrom m (p :: stack) doomed = d.doomedFrom m stack doomed := by
  rw [doomedFrom, if_pos hp]

theorem doomedFrom_of_none {d : Tables} {m : Model} {doomed stack : List Position} {p : Position}
    (hp : p ∉ doomed) (hrow : d.row? p = none) :
    d.doomedFrom m (p :: stack) doomed = d.doomedFrom m stack doomed := by
  rw [doomedFrom, if_neg hp]
  split
  · rfl
  · rename_i hrow'
    rw [hrow] at hrow'
    cases hrow'

theorem doomedFrom_of_some {d : Tables} {m : Model} {doomed stack : List Position} {p : Position}
    {row : Row} (hp : p ∉ doomed) (hrow : d.row? p = some row) :
    d.doomedFrom m (p :: stack) doomed =
      (d.dependentsOf m (p :: doomed) p.table row >>= fun pending =>
        d.doomedFrom m (pending.reverse ++ stack) (p :: doomed)) := by
  rw [doomedFrom, if_neg hp]
  split
  · rename_i hrow'
    rw [hrow] at hrow'
    cases hrow'
  · rename_i row' hrow'
    obtain rfl : row' = row := by
      rw [hrow] at hrow'
      exact (Option.some.inj hrow').symm
    cases d.dependentsOf m (p :: doomed) p.table row' <;> rfl

/-- What depends on a doomed row is doomed at the end. -/
theorem Covered.doomedFrom {d : Tables} {m : Model} {stack doomed all : List Position}
    (hdone : d.doomedFrom m stack doomed = .ok all) (h : d.Covered m doomed stack) :
    d.Covered m all [] := by
  induction stack, doomed using Tables.doomedFrom.induct d m with
  | case1 doomed =>
    rw [Tables.doomedFrom] at hdone
    cases hdone
    exact h
  | case2 doomed p stack hp ih =>
    rw [doomedFrom_of_mem hp] at hdone
    exact ih hdone (h.skip (Or.inl hp))
  | case3 doomed p stack hp hrow ih =>
    rw [doomedFrom_of_none hp hrow] at hdone
    exact ih hdone (h.skip (Or.inr hrow))
  | case4 doomed p stack hp row hrow e herror =>
    rw [doomedFrom_of_some hp hrow, herror] at hdone
    cases hdone
  | case5 doomed p stack hp row hrow pending hpending ih =>
    rw [doomedFrom_of_some hp hrow, hpending] at hdone
    exact ih hdone (h.doom hrow hpending)

/-- Nothing that stays depends on a row that goes. -/
theorem dependent_mem_doomed {d : Tables} {m : Model} {matched all : List Position}
    (h : d.doomedFrom m matched [] = .ok all) {k : ForeignKey} (hk : k ∈ m.foreignKeys)
    {p q : Position} (hq : q ∈ all) (hdepends : d.Depends k p q) : p ∈ all := by
  rcases (covered_nil d m matched).doomedFrom h k hk p q hq hdepends with hp | hp
  · exact hp
  · cases hp

/-! ## The tables after a deletion -/

theorem mem_survivors_iff {doomed : List Position} {table : String} {rows : List Row}
    {row : Row} : row ∈ survivors doomed table rows ↔
      ∃ i, rows[i]? = some row ∧ ⟨table, i⟩ ∉ doomed := by
  unfold survivors
  rw [List.mem_filterMap]
  constructor
  · rintro ⟨⟨row', i⟩, hmem, hkept⟩
    have hrow : rows[i]? = some row' := List.mem_zipIdx_iff_getElem?.1 hmem
    by_cases hdoomed : (⟨table, i⟩ : Position) ∈ doomed
    · simp [hdoomed] at hkept
    · obtain rfl : row' = row := by simpa [hdoomed] using hkept
      exact ⟨i, hrow, hdoomed⟩
  · rintro ⟨i, hrow, hdoomed⟩
    exact ⟨(row, i), List.mem_zipIdx_iff_getElem?.2 hrow, by simp [hdoomed]⟩

/-- The rows that stay keep their contents and their order. -/
theorem sublist_survivors (doomed : List Position) (table : String) (rows : List Row) :
    (survivors doomed table rows).Sublist rows := by
  have hsub : ∀ entries : List (Row × Nat),
      (entries.filterMap fun entry =>
        if ⟨table, entry.2⟩ ∈ doomed then none else some entry.1).Sublist
          (entries.map (·.1)) := by
    intro entries
    induction entries with
    | nil => exact List.Sublist.refl []
    | cons entry rest ih =>
      rw [List.map_cons]
      by_cases hdoomed : (⟨table, entry.2⟩ : Position) ∈ doomed
      · rw [List.filterMap_cons_none (by simp [hdoomed])]
        exact ih.cons entry.1
      · rw [List.filterMap_cons_some (b := entry.1) (by simp [hdoomed])]
        exact ih.cons_cons entry.1
  have hrows := hsub rows.zipIdx
  rw [List.zipIdx_map_fst] at hrows
  exact hrows

theorem rows_removeAll {d : Tables} {m : Model} {doomed : List Position} {table : String} :
    (d.removeAll m doomed).tables.rows table = survivors doomed table (d.rows table) := by
  unfold rows
  simp only [removeAll, Fields.get?_map fun table rows => survivors doomed table rows]
  cases d.get? table with
  | none => rfl
  | some rows => rfl

end Tables

end PipelineEngine
