import PipelineEngine.Proofs.Store.Doomed

/-!
# Accepted changes

A change of the tables that was accepted, as a value that carries what its acceptance
says: an insertion, an update or a deletion.  What each leaves behind is said once here,
row by row and cell by cell.

An update writes in two ways.  It writes its changes over the rows that it matches, and
through a key that they move it carries them on to the rows that depended on those
(`Update.Carries`).  Only the rows that it matches are checked, and they are checked
against the tables as they were before (`Update.references_of_matches`).
-/

namespace PipelineEngine

/-! ## Insertions -/

/-- An insertion is accepted when its row points at rows and its keys are its own. -/
theorem Tables.insertRow_eq_ok_iff {d : Tables} {m : Model} {t : Table} {row : Row}
    {effect : Effect} : d.insertRow m t row = .ok effect ↔
      m.checkReferences t row d = .ok () ∧ t.checkUnique row (d.rows t.name) = .ok () ∧
        effect = ⟨d.push t.name row, [⟨.insert, t.name, t.keyOf row⟩], 1⟩ := by
  rw [insertRow, Fallible.bind_eq_ok_iff]
  constructor
  · rintro ⟨⟨⟩, hreferences, h⟩
    obtain ⟨⟨⟩, hunique, h⟩ := Fallible.bind_eq_ok_iff.1 h
    exact ⟨hreferences, hunique, (Except.ok.inj h).symm⟩
  · rintro ⟨hreferences, hunique, rfl⟩
    exact ⟨(), hreferences, Fallible.bind_eq_ok_iff.2 ⟨(), hunique, rfl⟩⟩

/-- An insertion that was accepted. -/
structure Insertion (m : Model) where
  before : Tables
  table : Table
  row : Row
  effect : Effect
  declared : m.table? table.name = some table
  known : ∀ name ∈ Fields.names row, (table.column? name).isSome
  filled : ∀ c ∈ table.columns, c.isRequired = true → row.holds c.name = true
  accepted : before.insertRow m table row = .ok effect

namespace Insertion

variable {m : Model} (i : Insertion m)

/-- The tables after the insertion. -/
def after : Tables := i.effect.tables

/-- What the acceptance of an insertion says. -/
theorem checked :
    m.checkReferences i.table i.row i.before = .ok () ∧
      i.table.checkUnique i.row (i.before.rows i.table.name) = .ok () ∧
        i.after = i.before.push i.table.name i.row := by
  obtain ⟨hreferences, hunique, heffect⟩ := Tables.insertRow_eq_ok_iff.1 i.accepted
  refine ⟨hreferences, hunique, ?_⟩
  rw [after, heffect]

theorem rows_after (table : String) :
    i.after.rows table =
      if table = i.table.name then i.before.rows i.table.name ++ [i.row]
      else i.before.rows table := by
  rw [i.checked.2.2, Tables.rows_push]

/-- A row that was there stays. -/
theorem mem_rows_after {table : String} {row : Row} (h : row ∈ i.before.rows table) :
    row ∈ i.after.rows table := by
  rw [i.rows_after]
  split
  · rename_i heq
    exact List.mem_append.2 (Or.inl (heq ▸ h))
  · exact h

/-- A row is the inserted one or was there before. -/
theorem mem_rows_of_after {table : String} {row : Row} (h : row ∈ i.after.rows table) :
    row ∈ i.before.rows table ∨ table = i.table.name ∧ row = i.row := by
  rw [i.rows_after] at h
  split at h
  · rename_i heq
    rcases List.mem_append.1 h with h | h
    · exact Or.inl (heq ▸ h)
    · exact Or.inr ⟨heq, List.mem_singleton.1 h⟩
  · exact Or.inl h

end Insertion

/-! ## Deletions -/

/-- A deletion that was accepted. -/
structure Deletion (m : Model) where
  before : Tables
  table : Table
  filter : Row
  effect : Effect
  declared : m.table? table.name = some table
  accepted : before.deleteRows m table filter = .ok effect

namespace Deletion

variable {m : Model} (x : Deletion m)

/-- The tables after the deletion. -/
def after : Tables := x.effect.tables

/-- A deletion removes a set of positions that holds all dependents of its members. -/
theorem exists_doomed : ∃ doomed : List Position,
    (∀ k ∈ m.foreignKeys, ∀ p q, q ∈ doomed → x.before.Depends k p q → p ∈ doomed) ∧
      ∀ table, x.after.rows table = Tables.survivors doomed table (x.before.rows table) := by
  obtain ⟨doomed, hdoomed, heffect⟩ := Fallible.map_eq_ok_iff.1 x.accepted
  refine ⟨doomed, ?_, ?_⟩
  · intro k hk p q hq hdepends
    exact Tables.dependent_mem_doomed hdoomed hk hq hdepends
  · intro table
    rw [after, ← heffect, Tables.rows_removeAll]

/-- The rows of a table that stay are among those that were there, in the same order. -/
theorem sublist_rows_after (table : String) :
    (x.after.rows table).Sublist (x.before.rows table) := by
  obtain ⟨doomed, -, hrows⟩ := x.exists_doomed
  rw [hrows]
  exact Tables.sublist_survivors doomed table _

end Deletion

/-! ## Updates -/

namespace ForeignKey

/-- What an update carries on from one row through a key. -/
theorem mem_updateOverlays_iff {k : ForeignKey} {d : Tables} {changes old : Row}
    {overlays : List Overlay} (h : k.updateOverlays d changes old = .ok overlays) {o : Overlay} :
    o ∈ overlays ↔ k.isMoved old changes = true ∧
      ∃ j ∈ k.dependents d old, o = ⟨⟨k.table, j⟩, k.carried changes⟩ := by
  simp only [updateOverlays] at h
  split at h
  · rename_i hmoved
    split at h
    · rename_i hempty
      cases h
      simp [List.isEmpty_iff.1 hempty]
    · split at h
      · cases h
      · cases h
        simp only [hmoved, true_and, List.mem_map, eq_comm]
  · rename_i hmoved
    cases h
    simp [hmoved]

/-- A column that a key carries to is one of its own. -/
theorem mem_locals_of_carried {k : ForeignKey} {changes : Row} {column : String}
    (h : (Fields.get? (k.carried changes) column).isSome) : column ∈ k.locals := by
  rw [Fields.isSome_get?_iff, carried, Fields.ofList, Fields.mem_names_extend] at h
  rcases h with h | h
  · obtain ⟨⟨localColumn, v⟩, hmem, rfl⟩ := List.mem_map.1 h
    obtain ⟨link, hlink, hget⟩ := List.mem_filterMap.1 hmem
    obtain ⟨w, -, heq⟩ := Option.map_eq_some_iff.1 hget
    cases heq
    exact List.mem_map.2 ⟨link, hlink, rfl⟩
  · cases h

/-- Each changed column that a key points at is carried on. -/
theorem mem_names_carried {k : ForeignKey} {changes : Row} {link : String × String} {v : Value}
    (hlink : link ∈ k.columns) (hv : Fields.get? changes link.2 = some v) :
    link.1 ∈ Fields.names (k.carried changes) := by
  rw [carried, Fields.ofList, Fields.mem_names_extend]
  refine Or.inl (List.mem_map.2 ⟨(link.1, v), ?_, rfl⟩)
  exact List.mem_filterMap.2 ⟨link, hlink, by simp [hv]⟩

theorem sorted_carried (k : ForeignKey) (changes : Row) : Fields.Sorted (k.carried changes) :=
  Fields.sorted_ofList _

end ForeignKey

/-- What an update carries on to other rows. -/
theorem Tables.mem_cascades_iff {d : Tables} {m : Model} {t : Table} {changes : Row}
    {matched : List Nat} {carried : List Overlay}
    (h : d.cascades m t changes matched = .ok carried) {o : Overlay} :
    o ∈ carried ↔ ∃ k ∈ m.keysTo t.name, ∃ i ∈ matched,
      k.isMoved ((d.row? ⟨t.name, i⟩).getD []) changes = true ∧
        ∃ j ∈ k.dependents d ((d.row? ⟨t.name, i⟩).getD []),
          o = ⟨⟨k.table, j⟩, k.carried changes⟩ := by
  rw [Tables.cascades, Fallible.bind_eq_ok_iff] at h
  obtain ⟨found, hfound, h⟩ := h
  obtain rfl : found.flatten.flatten = carried := Except.ok.inj h
  obtain ⟨hforth, hback⟩ := Fallible.of_mapM_eq_ok hfound
  simp only [List.mem_flatten]
  constructor
  · rintro ⟨overlays, ⟨perKey, hperKey, hoverlays⟩, ho⟩
    obtain ⟨k, hk, hkey⟩ := hback perKey hperKey
    obtain ⟨i, hi, hrow⟩ := (Fallible.of_mapM_eq_ok hkey).2 overlays hoverlays
    exact ⟨k, hk, i, hi, (ForeignKey.mem_updateOverlays_iff hrow).1 ho⟩
  · rintro ⟨k, hk, i, hi, hcarried⟩
    obtain ⟨perKey, hperKey, hkey⟩ := hforth k hk
    obtain ⟨overlays, hoverlays, hrow⟩ := (Fallible.of_mapM_eq_ok hkey).1 i hi
    exact ⟨overlays, ⟨perKey, hperKey, hoverlays⟩,
      (ForeignKey.mem_updateOverlays_iff hrow).2 hcarried⟩

/-- An update that was accepted. -/
structure Update (m : Model) where
  before : Tables
  table : Table
  filter : Row
  changes : Row
  effect : Effect
  declared : m.table? table.name = some table
  known : ∀ name ∈ Fields.names changes, (table.column? name).isSome
  sorted : Fields.Sorted changes
  allowed : table.checkChanges changes = .ok ()
  accepted : before.updateRows m table filter changes = .ok effect

namespace Update

variable {m : Model} (u : Update m)

/-- The tables after the update. -/
def after : Tables := u.effect.tables

/-- The places of the rows that the update matches. -/
def matched : List Nat := u.before.matching u.table.name u.filter

/-- The update matches the row at a position. -/
def Matches (p : Position) : Prop := p.table = u.table.name ∧ p.index ∈ u.matched

/-- The update carries its changes through a key from a row that it matches, and that it
moves, on to a row that depended on it. -/
def CarriesFrom (k : ForeignKey) (q p : Position) : Prop :=
  k ∈ m.foreignKeys ∧ u.Matches q ∧ u.before.Depends k p q ∧
    ∃ old, u.before.row? q = some old ∧ k.isMoved old u.changes = true

/-- The update carries its changes through a key to the row at a position. -/
def Carries (k : ForeignKey) (p : Position) : Prop := ∃ q, u.CarriesFrom k q p

/-- The update writes one of its own changes into a cell. -/
def Writes (p : Position) (column : String) : Prop :=
  u.Matches p ∧ (Fields.get? u.changes column).isSome

/-- The update carries a value through a key into a cell. -/
def WritesThrough (k : ForeignKey) (p : Position) (column : String) : Prop :=
  u.Carries k p ∧ (Fields.get? (k.carried u.changes) column).isSome

/-- The update carries a value into one of some columns. -/
def CarriesInto (columns : List String) (p : Position) : Prop :=
  ∃ column ∈ columns, ∃ k, u.WritesThrough k p column

/-- The changes over the rows that the update matches. -/
def own : List Overlay := u.matched.map fun i => ⟨⟨u.table.name, i⟩, u.changes⟩

/-- The tables with its own changes only, whose rows the update checks. -/
def checked : Tables := u.before.written u.own

/-- What the acceptance of an update says. -/
theorem exists_carried : ∃ carried : List Overlay,
    (∀ i ∈ u.matched,
      u.before.checkUpdated m u.table (u.checked.rows u.table.name) i = .ok ()) ∧
      u.before.cascades m u.table u.changes u.matched = .ok carried ∧
        u.after = u.checked.written carried := by
  have h := u.accepted
  rw [Tables.updateRows, Fallible.bind_eq_ok_iff] at h
  obtain ⟨⟨⟩, hchecks, h⟩ := h
  rw [Fallible.bind_eq_ok_iff] at h
  obtain ⟨carried, hcarried, h⟩ := h
  refine ⟨carried, Fallible.forM_eq_ok_iff.1 hchecks, hcarried, ?_⟩
  have heffect := Except.ok.inj h
  rw [after, ← heffect, Tables.overlayAll_fst, Tables.written_append]
  rfl

/-! ### Which rows an update writes to -/

theorem isSome_row?_of_matches {p : Position} (h : u.Matches p) : (u.before.row? p).isSome := by
  obtain ⟨table, i⟩ := p
  obtain ⟨rfl, hi⟩ := h
  obtain ⟨row, hrow, -⟩ := Tables.mem_matching_iff.1 hi
  rw [hrow]
  rfl

theorem isSome_row?_of_carries {k : ForeignKey} {p : Position} (h : u.Carries k p) :
    (u.before.row? p).isSome := by
  obtain ⟨q, -, -, ⟨-, -, row, -, hrow, -⟩, -⟩ := h
  rw [hrow]
  rfl

theorem mem_own_iff {o : Overlay} : o ∈ u.own ↔ u.Matches o.position ∧ o.values = u.changes := by
  unfold own Matches
  rw [List.mem_map]
  constructor
  · rintro ⟨i, hi, rfl⟩
    exact ⟨⟨rfl, hi⟩, rfl⟩
  · rintro ⟨⟨htable, hindex⟩, hvalues⟩
    obtain ⟨⟨table, i⟩, values⟩ := o
    obtain rfl : table = u.table.name := htable
    obtain rfl : values = u.changes := hvalues
    exact ⟨i, hindex, rfl⟩

/-- What an update carries on are the changes of the keys that it carries through, and
they are written after its own. -/
theorem after_eq_written : ∃ carried : List Overlay,
    (∀ o, o ∈ carried ↔ ∃ k, u.Carries k o.position ∧ o.values = k.carried u.changes) ∧
      u.after = u.checked.written carried := by
  obtain ⟨carried, -, hcarried, hafter⟩ := u.exists_carried
  refine ⟨carried, ?_, hafter⟩
  intro o
  rw [Tables.mem_cascades_iff hcarried]
  constructor
  · rintro ⟨k, hk, i, hi, hmoved, j, hj, rfl⟩
    obtain ⟨hkey, htarget⟩ := Model.mem_keysTo_iff.1 hk
    obtain ⟨old, hold, -⟩ := Tables.mem_matching_iff.1 hi
    rw [hold, Option.getD_some] at hmoved hj
    obtain ⟨row, hrow, hpoints⟩ := ForeignKey.mem_dependents_iff.1 hj
    exact ⟨k, ⟨⟨u.table.name, i⟩, hkey, ⟨rfl, hi⟩,
      ⟨rfl, htarget.symm, row, old, hrow, hold, hpoints⟩, old, hold, hmoved⟩, rfl⟩
  · rintro ⟨k, ⟨q, hkey, hq, ⟨htable, htarget, row, old, hrow, hold, hpoints⟩, old', hold',
      hmoved⟩, hvalues⟩
    obtain ⟨⟨table, j⟩, values⟩ := o
    obtain ⟨table', i⟩ := q
    obtain ⟨rfl, hi⟩ := hq
    obtain rfl : table = k.table := htable
    obtain rfl : values = k.carried u.changes := hvalues
    obtain rfl : old' = old := by
      rw [hold] at hold'
      exact (Option.some.inj hold').symm
    refine ⟨k, Model.mem_keysTo_iff.2 ⟨hkey, htarget.symm⟩, i, hi, ?_⟩
    rw [hold, Option.getD_some]
    exact ⟨hmoved, j, ForeignKey.mem_dependents_iff.2 ⟨row, hrow, hpoints⟩, rfl⟩

theorem isSome_row?_checked (p : Position) :
    (u.checked.row? p).isSome = (u.before.row? p).isSome :=
  Tables.isSome_row?_written

theorem isSome_row?_after (p : Position) :
    (u.after.row? p).isSome = (u.before.row? p).isSome := by
  obtain ⟨carried, -, hafter⟩ := u.after_eq_written
  rw [hafter, Tables.isSome_row?_written, u.isSome_row?_checked]

/-! ### What an update leaves in a cell -/

theorem sorted_of_mem_own {o : Overlay} (h : o ∈ u.own) : Fields.Sorted o.values := by
  rw [(u.mem_own_iff.1 h).2]
  exact u.sorted

/-- A change of the update is in every row that it matches when the rows are checked. -/
theorem cell?_checked_of_matches {p : Position} {column : String} {v : Value}
    (hp : u.Matches p) (hv : Fields.get? u.changes column = some v) :
    u.checked.cell? p column = some v := by
  refine Tables.cell?_written_of_last (fun o ho => u.sorted_of_mem_own ho)
    (u.isSome_row?_of_matches hp) ⟨⟨p, u.changes⟩, u.mem_own_iff.2 ⟨hp, rfl⟩, rfl, hv⟩ ?_
  intro o ho _ w hw
  rw [(u.mem_own_iff.1 ho).2, hv] at hw
  exact (Option.some.inj hw).symm

/-- A cell that the update's own changes leave alone is checked as it was before. -/
theorem cell?_checked_of_not_writes {p : Position} {column : String}
    (h : ¬ u.Writes p column) : u.checked.cell? p column = u.before.cell? p column := by
  cases hp : (u.before.row? p).isSome with
  | false =>
    have hp' := u.isSome_row?_checked p
    rw [hp] at hp'
    rw [Option.isSome_eq_false_iff, Option.isNone_iff_eq_none] at hp hp'
    rw [Tables.cell?, Tables.cell?, hp, hp']
  | true =>
    refine Tables.cell?_written_of_unwritten (fun o ho => u.sorted_of_mem_own ho) hp ?_
    intro o ho hpos
    obtain ⟨hmatches, hvalues⟩ := u.mem_own_iff.1 ho
    rw [hvalues]
    cases hget : Fields.get? u.changes column with
    | none => rfl
    | some v => exact absurd ⟨hpos ▸ hmatches, by rw [hget]; rfl⟩ h

/-- A cell to which nothing is carried stays as it was checked. -/
theorem cell?_after_of_not_carried {p : Position} {column : String}
    (h : ∀ k, ¬ u.WritesThrough k p column) :
    u.after.cell? p column = u.checked.cell? p column := by
  obtain ⟨carried, hmem, hafter⟩ := u.after_eq_written
  cases hp : (u.checked.row? p).isSome with
  | false =>
    have hp' : (u.after.row? p).isSome = false := by
      rw [u.isSome_row?_after, ← u.isSome_row?_checked, hp]
    rw [Option.isSome_eq_false_iff, Option.isNone_iff_eq_none] at hp hp'
    rw [Tables.cell?, Tables.cell?, hp, hp']
  | true =>
    rw [hafter]
    refine Tables.cell?_written_of_unwritten ?_ hp ?_
    · intro o ho
      obtain ⟨k, -, hvalues⟩ := (hmem o).1 ho
      rw [hvalues]
      exact k.sorted_carried u.changes
    · intro o ho hpos
      obtain ⟨k, hcarries, hvalues⟩ := (hmem o).1 ho
      rw [hvalues]
      cases hget : Fields.get? (k.carried u.changes) column with
      | none => rfl
      | some v => exact absurd ⟨hpos ▸ hcarries, by rw [hget]; rfl⟩ (h k)

/-- A cell that an update writes in neither way stays as it was. -/
theorem cell?_after_of_not_written {p : Position} {column : String}
    (hown : ¬ u.Writes p column) (hcarried : ∀ k, ¬ u.WritesThrough k p column) :
    u.after.cell? p column = u.before.cell? p column := by
  rw [u.cell?_after_of_not_carried hcarried, u.cell?_checked_of_not_writes hown]

/-- A cell to which one value is carried, and no other, has that value. -/
theorem cell?_after_of_carried {k : ForeignKey} {p : Position} {column : String} {v : Value}
    (hp : u.Carries k p) (hv : Fields.get? (k.carried u.changes) column = some v)
    (honly : ∀ other, u.WritesThrough other p column →
      Fields.get? (other.carried u.changes) column = some v) :
    u.after.cell? p column = some v := by
  obtain ⟨carried, hmem, hafter⟩ := u.after_eq_written
  rw [hafter]
  refine Tables.cell?_written_of_last ?_ ?_ ⟨⟨p, k.carried u.changes⟩, ?_, rfl, hv⟩ ?_
  · intro o ho
    obtain ⟨other, -, hvalues⟩ := (hmem o).1 ho
    rw [hvalues]
    exact other.sorted_carried u.changes
  · rw [u.isSome_row?_checked]
    exact u.isSome_row?_of_carries hp
  · exact (hmem _).2 ⟨k, hp, rfl⟩
  · intro o ho hpos w hw
    obtain ⟨other, hcarries, hvalues⟩ := (hmem o).1 ho
    rw [hvalues] at hw
    have hother := honly other ⟨hpos ▸ hcarries, by rw [hw]; rfl⟩
    rw [hw] at hother
    exact Option.some.inj hother

/-- The row that an update leaves at a position is in some columns the row that it checked
there, unless it carries something into them. -/
theorem exists_checked_of_not_carriesInto {columns : List String} {p : Position} {row : Row}
    (hrow : u.after.row? p = some row) (hp : ¬ u.CarriesInto columns p) :
    ∃ row', u.checked.row? p = some row' ∧
      ∀ column ∈ columns, row.get? column = row'.get? column := by
  have hchecked : (u.checked.row? p).isSome := by
    rw [u.isSome_row?_checked, ← u.isSome_row?_after, hrow]
    rfl
  obtain ⟨row', hrow'⟩ := Option.isSome_iff_exists.1 hchecked
  refine ⟨row', hrow', ?_⟩
  intro column hcolumn
  rw [← Tables.cell?_of_row? hrow, ← Tables.cell?_of_row? hrow']
  exact u.cell?_after_of_not_carried fun k hk => hp ⟨column, hcolumn, k, hk⟩

/-- A row that an update does not match is the old one while the rows are checked. -/
theorem exists_before_of_not_matches {p : Position} {row : Row}
    (hrow : u.checked.row? p = some row) (hp : ¬ u.Matches p) :
    ∃ row', u.before.row? p = some row' ∧ ∀ column, row.get? column = row'.get? column := by
  have hbefore : (u.before.row? p).isSome := by
    rw [← u.isSome_row?_checked, hrow]
    rfl
  obtain ⟨row', hrow'⟩ := Option.isSome_iff_exists.1 hbefore
  refine ⟨row', hrow', ?_⟩
  intro column
  rw [← Tables.cell?_of_row? hrow, ← Tables.cell?_of_row? hrow']
  exact u.cell?_checked_of_not_writes fun hwrites => hp hwrites.1

/-! ### What an update checks -/

/-- A row that the update matches points at rows of the tables before it. -/
theorem references_of_matches {p : Position} {row : Row} (hp : u.Matches p)
    (hrow : u.checked.row? p = some row) {k : ForeignKey} (hk : k ∈ m.foreignKeys)
    (htable : p.table = k.table) (hcomplete : k.isComplete row = true) :
    ∃ target ∈ u.before.rows k.target, k.points row target = true := by
  obtain ⟨carried, hchecks, -⟩ := u.exists_carried
  have hcheck := hchecks p.index hp.2
  have hindex : (u.checked.rows u.table.name)[p.index]? = some row := hp.1 ▸ hrow
  rw [Tables.checkUpdated, Fallible.bind_eq_ok_iff] at hcheck
  obtain ⟨⟨⟩, hreferences, -⟩ := hcheck
  rw [hindex, Option.getD_some] at hreferences
  exact Model.checkReferences_eq_ok_iff.1 hreferences k
    (Model.mem_keysFrom_iff.2 ⟨hk, htable.symm.trans hp.1⟩) hcomplete

/-- A row that the update matches clashes with no other row of the checked tables. -/
theorem distinct_of_matches {p q : Position} {row other : Row} (hp : u.Matches p)
    (hrow : u.checked.row? p = some row) (hother : u.checked.row? q = some other)
    (htable : q.table = p.table) (hne : q ≠ p) {key : List String}
    (hkey : key ∈ u.table.uniqueKeys) : Table.clashes key row other = false := by
  obtain ⟨carried, hchecks, -⟩ := u.exists_carried
  have hcheck := hchecks p.index hp.2
  have hindex : (u.checked.rows u.table.name)[p.index]? = some row := hp.1 ▸ hrow
  rw [Tables.checkUpdated, Fallible.bind_eq_ok_iff] at hcheck
  obtain ⟨⟨⟩, -, hunique⟩ := hcheck
  rw [hindex, Option.getD_some] at hunique
  refine Table.checkUnique_eq_ok_iff.1 hunique key hkey other ?_
  rw [List.mem_eraseIdx_iff_getElem?]
  refine ⟨q.index, ?_, ?_⟩
  · intro hindex'
    apply hne
    obtain ⟨table, j⟩ := q
    obtain ⟨table', i⟩ := p
    simp only at htable hindex'
    rw [htable, hindex']
  · rw [← hp.1, ← htable]
    exact hother

end Update

end PipelineEngine
