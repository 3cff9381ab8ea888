import PipelineEngine.Proofs.Model.Linked
import PipelineEngine.Proofs.Store.History

/-!
# Completeness of rows

A stored row has only columns that its table declares, and a value that is not null in
each column that the table requires.  An inserted row is completed first, and the changes
of an update are searched for nulls, but not what an update carries on: a column that may
be null can be the target of a key from a column that may not.

* `Update.isAdmitted_iff`: what one update does to the property.
* `Store.History.forall_isAdmitted_iff`: what this means for all states of a store.
-/

namespace PipelineEngine

/-- A row has only columns of the table and a value in each required one. -/
structure Table.Admits (t : Table) (row : Row) : Prop where
  declared : ∀ name ∈ Fields.names row, (t.column? name).isSome
  filled : ∀ c ∈ t.columns, c.isRequired = true → row.holds c.name = true

instance (t : Table) (row : Row) : Decidable (t.Admits row) :=
  decidable_of_iff
    ((∀ name ∈ Fields.names row, (t.column? name).isSome) ∧
      ∀ c ∈ t.columns, c.isRequired = true → row.holds c.name = true)
    ⟨fun h => ⟨h.1, h.2⟩, fun h => ⟨h.declared, h.filled⟩⟩

/-- Every row is one that its table admits. -/
def Model.IsAdmitted (m : Model) (d : Tables) : Prop :=
  ∀ table, ∀ row ∈ d.rows table, ∃ t, m.table? table = some t ∧ t.Admits row

theorem Model.isAdmitted_nil (m : Model) : m.IsAdmitted [] := by
  intro table row hrow
  cases hrow

/-- Only the names under which there are rows have to be looked at. -/
theorem Model.isAdmitted_iff_names {m : Model} {d : Tables} :
    m.IsAdmitted d ↔ ∀ table ∈ Fields.names d, ∀ row ∈ d.rows table,
      (m.table? table).any (fun t => decide (t.Admits row)) = true := by
  constructor
  · intro h table _ row hrow
    obtain ⟨t, ht, hadmits⟩ := h table row hrow
    rw [ht, Option.any_some]
    exact decide_eq_true hadmits
  · intro h table row hrow
    have hname : table ∈ Fields.names d := by
      rw [← Fields.isSome_get?_iff]
      cases hget : Fields.get? d table with
      | none => simp [Tables.rows, hget] at hrow
      | some rows => rfl
    obtain ⟨t, ht, hadmits⟩ := (Option.any_eq_true _ _).1 (h table hname row hrow)
    exact ⟨t, ht, of_decide_eq_true hadmits⟩

instance (m : Model) (d : Tables) : Decidable (m.IsAdmitted d) :=
  decidable_of_iff _ Model.isAdmitted_iff_names.symm

section

variable {m : Model}

/-! ## The changes that keep it -/

theorem Insertion.isAdmitted (i : Insertion m) (h : m.IsAdmitted i.before) :
    m.IsAdmitted i.after := by
  intro table row hrow
  rcases i.mem_rows_of_after hrow with hrow | ⟨rfl, rfl⟩
  · exact h table row hrow
  · exact ⟨i.table, i.declared, i.known, i.filled⟩

theorem Deletion.isAdmitted (x : Deletion m) (h : m.IsAdmitted x.before) :
    m.IsAdmitted x.after := by
  intro table row hrow
  exact h table row ((x.sublist_rows_after table).subset hrow)

namespace Update

variable (u : Update m)

/-- Each row has a value in the required columns into which something was carried. -/
def KeepsRequired : Prop :=
  ∀ p row t, u.after.row? p = some row → m.table? p.table = some t →
    ∀ c ∈ t.columns, c.isRequired = true → u.CarriesInto [c.name] p → row.holds c.name = true

/-- The table of a row that an update matches. -/
theorem table_of_matches {p : Position} (hp : u.Matches p) {t : Table}
    (ht : m.table? p.table = some t) : u.table = t := by
  rw [hp.1, u.declared] at ht
  exact Option.some.inj ht

/-- A column that an update leaves in a row was there, or the table declares it. -/
theorem declared_after {d : Document} {epoch : Nat} (hm : d.link epoch = .ok m) {p : Position}
    {old row : Row} {t : Table} (hold : u.before.row? p = some old)
    (hrow : u.after.row? p = some row) (ht : m.table? p.table = some t) (hadmits : t.Admits old)
    {name : String} (hname : name ∈ Fields.names row) : (t.column? name).isSome := by
  by_cases hcarried : ∃ k, u.WritesThrough k p name
  · obtain ⟨k, ⟨q, hk, -, ⟨htable, -⟩, -⟩, hsome⟩ := hcarried
    obtain ⟨t', ht', hlocals⟩ := Document.exists_table_of_mem_foreignKeys hm hk
    rw [← htable, ht] at ht'
    obtain rfl : t = t' := Option.some.inj ht'
    obtain ⟨link, hlink, rfl⟩ := List.mem_map.1 (ForeignKey.mem_locals_of_carried hsome)
    exact hlocals link hlink
  · by_cases hown : u.Writes p name
    · rw [← u.table_of_matches hown.1 ht]
      exact u.known name (Fields.isSome_get?_iff.1 hown.2)
    · refine hadmits.declared name ?_
      have hcell := u.cell?_after_of_not_written hown (not_exists.1 hcarried)
      rw [Tables.cell?_of_row? hrow, Tables.cell?_of_row? hold] at hcell
      rw [← Fields.isSome_get?_iff, ← hcell, Fields.isSome_get?_iff]
      exact hname

/-- A required column into which nothing is carried keeps a value. -/
theorem holds_after_of_not_carriesInto {d : Document} {epoch : Nat} (hm : d.link epoch = .ok m)
    {p : Position} {old row : Row} {t : Table} (hold : u.before.row? p = some old)
    (hrow : u.after.row? p = some row) (ht : m.table? p.table = some t) (hadmits : t.Admits old)
    {c : Column} (hc : c ∈ t.columns) (hrequired : c.isRequired = true)
    (hcarried : ¬ u.CarriesInto [c.name] p) : row.holds c.name = true := by
  have hnone : ∀ k, ¬ u.WritesThrough k p c.name :=
    fun k hk => hcarried ⟨c.name, List.mem_cons_self, k, hk⟩
  rw [Row.holds_iff, ← Tables.cell?_of_row? hrow]
  by_cases hown : u.Writes p c.name
  · obtain ⟨v, hv⟩ := Option.isSome_iff_exists.1 hown.2
    refine ⟨v, ?_, ?_⟩
    · rw [u.cell?_after_of_not_carried hnone, u.cell?_checked_of_matches hown.1 hv]
    · -- A null among the changes would have been found.
      cases hnull : v.isNull with
      | false => rfl
      | true =>
        have hcolumn : u.table.column? c.name = some c := by
          rw [u.table_of_matches hown.1 ht]
          exact Document.column?_of_mem hm ht hc
        have hoptional := Table.checkChanges_eq_ok_iff.1 u.allowed c.name v
          (Fields.mem_of_get? hv) hnull c hcolumn
        rw [hrequired] at hoptional
        cases hoptional
  · obtain ⟨v, hv, hnull⟩ := Row.holds_iff.1 (hadmits.filled c hc hrequired)
    refine ⟨v, ?_, hnull⟩
    rw [u.cell?_after_of_not_written hown hnone, Tables.cell?_of_row? hold]
    exact hv

/-- An update leaves rows that their tables admit exactly when each required column into
which it carried something has a value. -/
theorem isAdmitted_iff {d : Document} {epoch : Nat} (hm : d.link epoch = .ok m)
    (h : m.IsAdmitted u.before) : m.IsAdmitted u.after ↔ u.KeepsRequired := by
  constructor
  · intro hafter p row t hrow ht c hc hrequired _
    obtain ⟨t', ht', hadmits⟩ := hafter p.table row (Tables.mem_rows_of_row? hrow)
    rw [ht] at ht'
    obtain rfl : t = t' := Option.some.inj ht'
    exact hadmits.filled c hc hrequired
  · intro hkeeps table row hmem
    obtain ⟨i, hrow⟩ := Tables.mem_rows_iff.1 hmem
    have hbefore : (u.before.row? ⟨table, i⟩).isSome := by
      rw [← u.isSome_row?_after, hrow]
      rfl
    obtain ⟨old, hold⟩ := Option.isSome_iff_exists.1 hbefore
    obtain ⟨t, ht, hadmits⟩ := h table old (Tables.mem_rows_of_row? hold)
    refine ⟨t, ht, fun name hname => u.declared_after hm hold hrow ht hadmits hname, ?_⟩
    intro c hc hrequired
    by_cases hcarried : u.CarriesInto [c.name] ⟨table, i⟩
    · exact hkeeps ⟨table, i⟩ row t hrow ht c hc hrequired hcarried
    · exact u.holds_after_of_not_carriesInto hm hold hrow ht hadmits hc hrequired hcarried

end Update

end

namespace Store

/-- All states of a store hold only rows that their tables admit exactly when each update
left values in the required columns into which it carried something. -/
theorem History.forall_isAdmitted_iff {d : Document} {epoch : Nat} {c : Rules}
    (hm : d.link epoch = .ok c.model) {states : List Store} (h : History c states) :
    (∀ s ∈ states, c.model.IsAdmitted s.tables) ↔
      ∀ u : Update c.model, u.Within states → u.KeepsRequired :=
  h.forall_iff c.model.isAdmitted_nil (fun i => i.isAdmitted) (fun x => x.isAdmitted)
    fun u => u.isAdmitted_iff hm

/-! ### A group that gets another name, and one that loses it -/

/-- Groups with a label that may be missing, and members that must name one. -/
def clubs : List Table := [
  ⟨"club", [.ofNumbers "id" true true, .ofNumbers "label" false true], [], none⟩,
  ⟨"member", [.ofNumbers "club" false false],
    [.reference "membership" "club" "club.label" .cascade], none⟩]

/-- A club with a member gets a label. -/
def clubChange (label : Value) : List Operation := [
  .insert "club" [("id", .int 1), ("label", .int 1)] none,
  .insert "member" [("club", .int 1)] none,
  .update "club" [("id", .int 1)] [("label", label)] none]

theorem keepsRequired_of_clubChange :
    (Document.ofTables clubs).link 0 = .ok (Rules.ofTables clubs).model ∧
      History (.ofTables clubs) (statesOf clubs (clubChange (.int 2))) ∧
        ∀ u : Update (Rules.ofTables clubs).model,
          u.Within (statesOf clubs (clubChange (.int 2))) → u.KeepsRequired := by
  have hm : (Document.ofTables clubs).link 0 = .ok (Rules.ofTables clubs).model := rfl
  have h : History (.ofTables clubs) (statesOf clubs (clubChange (.int 2))) :=
    history_statesOf (by decide)
  exact ⟨hm, h, (History.forall_isAdmitted_iff hm h).1 (by decide)⟩

theorem not_isAdmitted_of_clubChange :
    (Document.ofTables clubs).link 0 = .ok (Rules.ofTables clubs).model ∧
      History (.ofTables clubs) (statesOf clubs (clubChange .null)) ∧
        ∃ s ∈ statesOf clubs (clubChange .null),
          ¬ (Rules.ofTables clubs).model.IsAdmitted s.tables := by
  refine ⟨rfl, history_statesOf ?_, ?_⟩
  · decide
  · decide

end Store

end PipelineEngine
