import PipelineEngine.Proofs.Fallible
import PipelineEngine.Proofs.Fields
import PipelineEngine.Proofs.Run.Keyed
import PipelineEngine.Proofs.Store.Checks
import PipelineEngine.Store.Basic

/-!
# Rows on their way into the store

What a row is after the transforms of its columns and after it was completed, whatever
the steps and the sources of generated values answer.

* `names_of_transformRow`: a transformed row has the names that it had before, and
  `quiet_transformRow`: no event is delivered meanwhile.
* `completeRow_spec`: a completed row has new names only from the columns of the table,
  and a value in every required column.  `quiet_completeRow`: no event is delivered meanwhile.
-/

namespace PipelineEngine

/-! ## Transforms -/

/-- Transforms change the values of a row and not its names. -/
theorem Table.names_of_transformRow {t : Table} {r : Runner} {m : Model} {phase : ColumnPhase}
    {row row' : Row} (h : (t.transformRow r m phase row).MayReturn (.ok row')) :
    Fields.names row' = Fields.names row := by
  induction row generalizing row' with
  | nil =>
    rw [Table.transformRow, Dialogue.mayReturn_pure_iff] at h
    cases h
    rfl
  | cons field rest ih =>
    obtain ⟨name, value⟩ := field
    rw [Table.transformRow, Dialogue.mayReturn_bind_iff] at h
    obtain ⟨first, -, h⟩ := h
    cases first with
    | error e =>
      simp at h
    | ok value' =>
      rw [Dialogue.mayReturn_bind_iff] at h
      obtain ⟨others, hothers, h⟩ := h
      cases others with
      | error e =>
        simp at h
      | ok rest' =>
        rw [Dialogue.mayReturn_pure_iff] at h
        cases h
        have hrest : Fields.names rest' = Fields.names rest := ih hothers
        show name :: Fields.names rest' = name :: Fields.names rest
        rw [hrest]

theorem Store.Rules.names_of_transform {c : Store.Rules} {t : Table} {phase : ColumnPhase}
    {row row' : Row} (h : (c.transform t phase row).MayReturn (.ok row')) :
    Fields.names row' = Fields.names row := by
  rw [Store.Rules.transform, Dialogue.mayReturn_bind_iff] at h
  obtain ⟨result, hresult, h⟩ := h
  rw [Dialogue.mayReturn_pure_iff] at h
  cases result with
  | error e => cases h
  | ok row'' =>
    cases h
    exact Table.names_of_transformRow hresult

/-- Transforms deliver no events. -/
theorem Table.quiet_transformRow (t : Table) (r : Runner) (m : Model) (phase : ColumnPhase)
    (row : Row) : (t.transformRow r m phase row).Quiet := by
  have hfield : ∀ name value, (t.transformField r m phase name value).Quiet := by
    intro name value
    unfold Table.transformField
    split
    · unfold Column.transform
      split
      · exact (Runner.quiet_execute _ _ _ _ _ _).bind fun result => Dialogue.quiet_pure _
      · exact Dialogue.quiet_pure _
    · exact Dialogue.quiet_pure _
  induction row with
  | nil => exact Dialogue.quiet_pure _
  | cons field rest ih =>
    obtain ⟨name, value⟩ := field
    refine (hfield name value).bind fun first => ?_
    cases first with
    | error e => exact Dialogue.quiet_pure _
    | ok value' =>
      refine ih.bind fun others => ?_
      cases others with
      | error e => exact Dialogue.quiet_pure _
      | ok rest' => exact Dialogue.quiet_pure _

theorem Store.Rules.quiet_transform (c : Store.Rules) (t : Table) (phase : ColumnPhase)
    (row : Row) : (c.transform t phase row).Quiet :=
  (t.quiet_transformRow c.runner c.model phase row).bind fun _ => Dialogue.quiet_pure _

/-! ## Completion -/

/-- No policy generates a null. -/
theorem SnowflakeSource.isNull_of_generate {s s' : SnowflakeSource} {shortener : Shortener}
    {policy : DefaultPolicy} {v : Value}
    (h : (s.generate shortener policy).MayReturn (s', .ok (some v))) : v.isNull = false := by
  cases policy with
  | none =>
    simp [generate] at h
  | ulid | snowflake =>
    rw [generate, Dialogue.mayReturn_bind_iff] at h
    obtain ⟨answer, -, h⟩ := h
    simp only [Dialogue.mayReturn_pure_iff, Prod.mk.injEq, Except.ok.injEq,
      Option.some.injEq] at h
    obtain ⟨-, rfl⟩ := h
    rfl
  | sqid =>
    rw [generate, Dialogue.mayReturn_bind_iff] at h
    obtain ⟨answer, -, h⟩ := h
    obtain ⟨-, htext⟩ := Prod.mk.inj (Dialogue.mayReturn_pure_iff.1 h)
    obtain ⟨text, -, hvalue⟩ := Fallible.map_eq_ok_iff.1 htext.symm
    cases hvalue
    rfl

/-- What completing a row does to it: names come from the given ones only, and no name
loses its value. -/
structure Row.CompletedBy (row row' : Row) (columns : List Column) : Prop where
  names : ∀ name ∈ Fields.names row', name ∈ Fields.names row ∨ ∃ c ∈ columns, c.name = name
  keeps : ∀ name, row.holds name = true → row'.holds name = true
  filled : ∀ c ∈ columns, c.isRequired = true → row'.holds c.name = true

theorem Row.holds_insert {row : Row} {name other : String} {v : Value} (hv : v.isNull = false)
    (h : row.holds other = true) : Row.holds (Fields.insert name v row) other = true := by
  rw [Row.holds_iff] at h ⊢
  obtain ⟨w, hget, hw⟩ := h
  rw [Fields.get?_insert]
  by_cases ho : other = name
  · exact ⟨v, if_pos ho, hv⟩
  · exact ⟨w, by rw [if_neg ho, hget], hw⟩

theorem Row.holds_insert_self {row : Row} {name : String} {v : Value} (hv : v.isNull = false) :
    Row.holds (Fields.insert name v row) name = true :=
  Row.holds_iff.2 ⟨v, by rw [Fields.get?_insert, if_pos rfl], hv⟩

section
variable {shortener : Shortener} {table : String} {ids ids' : SnowflakeSource} {row row' : Row}

/-- A column leaves a row as it is, or it puts a generated value where there is none. -/
theorem Column.complete_cases {c : Column}
    (h : (c.complete shortener table ids row).MayReturn (ids', .ok row')) :
    (row' = row ∧ (row.holds c.name = true ∨ c.isRequired = false)) ∨
      ∃ v, v.isNull = false ∧ row.holds c.name = false ∧ row' = Fields.insert c.name v row := by
  unfold Column.complete at h
  split at h
  · rename_i hholds
    simp only [Dialogue.mayReturn_pure_iff, Prod.mk.injEq, Except.ok.injEq] at h
    exact Or.inl ⟨h.2, Or.inl hholds⟩
  · rename_i hempty
    rw [Dialogue.mayReturn_bind_iff] at h
    obtain ⟨⟨ids'', generated⟩, hgenerated, h⟩ := h
    rcases generated with e | _ | v
    case error => simp at h
    case ok.some =>
      simp only [Dialogue.mayReturn_pure_iff, Prod.mk.injEq, Except.ok.injEq] at h
      exact Or.inr ⟨v, SnowflakeSource.isNull_of_generate hgenerated,
        Bool.eq_false_iff.2 hempty, h.2⟩
    case ok.none =>
      simp only at h
      split at h
      · simp at h
      · rename_i hrequired
        simp only [Dialogue.mayReturn_pure_iff, Prod.mk.injEq, Except.ok.injEq] at h
        exact Or.inl ⟨h.2, Or.inr (Bool.eq_false_iff.2 hrequired)⟩

theorem Column.complete_spec {c : Column}
    (h : (c.complete shortener table ids row).MayReturn (ids', .ok row')) :
    row.CompletedBy row' [c] := by
  rcases Column.complete_cases h with ⟨rfl, hkept⟩ | ⟨v, hv, -, rfl⟩
  · refine ⟨fun name hname => Or.inl hname, fun name hname => hname, ?_⟩
    refine List.forall_mem_singleton.2 fun hrequired => ?_
    rcases hkept with hholds | hoptional
    · exact hholds
    · rw [hoptional] at hrequired
      cases hrequired
  · refine ⟨?_, fun name hname => Row.holds_insert hv hname,
      List.forall_mem_singleton.2 fun _ => Row.holds_insert_self hv⟩
    intro name hname
    rcases Fields.mem_names_insert.1 hname with rfl | hname
    · exact Or.inr ⟨c, List.mem_singleton.2 rfl, rfl⟩
    · exact Or.inl hname

/-- A value that is no null stays as it is. -/
theorem Column.get?_of_complete {c : Column}
    (h : (c.complete shortener table ids row).MayReturn (ids', .ok row')) {name : String}
    (hholds : row.holds name = true) : row'.get? name = row.get? name := by
  rcases Column.complete_cases h with ⟨rfl, -⟩ | ⟨v, -, hempty, rfl⟩
  · rfl
  · have hne : name ≠ c.name := by
      rintro rfl
      rw [hempty] at hholds
      cases hholds
    rw [Fields.get?_insert, if_neg hne]

theorem Table.completeWith_spec {columns : List Column}
    (h : (Table.completeWith shortener table ids columns row).MayReturn (ids', .ok row')) :
    row.CompletedBy row' columns := by
  induction columns generalizing ids row with
  | nil =>
    rw [Table.completeWith] at h
    simp only [Dialogue.mayReturn_pure_iff, Prod.mk.injEq, Except.ok.injEq] at h
    obtain ⟨-, rfl⟩ := h
    exact ⟨fun name hname => Or.inl hname, fun name hname => hname, by simp⟩
  | cons c rest ih =>
    rw [Table.completeWith, Dialogue.mayReturn_bind_iff] at h
    obtain ⟨⟨ids'', result⟩, hfirst, h⟩ := h
    cases result with
    | error e => simp at h
    | ok row'' =>
      have hc := Column.complete_spec hfirst
      have hrest := ih h
      refine ⟨?_, fun name hname => hrest.keeps name (hc.keeps name hname), ?_⟩
      · intro name hname
        rcases hrest.names name hname with hname | ⟨c', hc', rfl⟩
        · rcases hc.names name hname with hname | ⟨c', hc', rfl⟩
          · exact Or.inl hname
          · exact Or.inr ⟨c', by simp [List.mem_singleton.1 hc'], rfl⟩
        · exact Or.inr ⟨c', List.mem_cons_of_mem _ hc', rfl⟩
      · intro c' hc' hrequired
        rcases List.mem_cons.1 hc' with rfl | hc'
        · exact hrest.keeps _ (hc.filled c' List.mem_cons_self hrequired)
        · exact hrest.filled c' hc' hrequired

theorem Table.get?_of_completeRow {t : Table}
    (h : (t.completeRow shortener ids row).MayReturn (ids', .ok row')) {name : String}
    (hholds : row.holds name = true) : row'.get? name = row.get? name := by
  rw [Table.completeRow] at h
  generalize t.columns = columns at h
  induction columns generalizing ids row with
  | nil =>
    rw [Table.completeWith] at h
    simp only [Dialogue.mayReturn_pure_iff, Prod.mk.injEq, Except.ok.injEq] at h
    obtain ⟨-, rfl⟩ := h
    rfl
  | cons c rest ih =>
    rw [Table.completeWith, Dialogue.mayReturn_bind_iff] at h
    obtain ⟨⟨ids'', result⟩, hfirst, h⟩ := h
    cases result with
    | error e => simp at h
    | ok row'' =>
      have hkeeps := (Column.complete_spec hfirst).keeps name hholds
      rw [ih hkeeps h, Column.get?_of_complete hfirst hholds]

/-- Completing a row delivers no events. -/
theorem Table.quiet_completeRow (t : Table) (shortener : Shortener) (ids : SnowflakeSource)
    (row : Row) : (t.completeRow shortener ids row).Quiet := by
  have hgenerate : ∀ (ids : SnowflakeSource) policy, (ids.generate shortener policy).Quiet := by
    intro ids policy
    cases policy with
    | none => exact Dialogue.quiet_pure _
    | ulid => exact (Dialogue.quiet_request rfl).bind fun _ => Dialogue.quiet_pure _
    | snowflake => exact Dialogue.quiet_now.bind fun _ => Dialogue.quiet_pure _
    | sqid => exact Dialogue.quiet_now.bind fun _ => Dialogue.quiet_pure _
  have hcolumn : ∀ (c : Column) ids row, (c.complete shortener t.name ids row).Quiet := by
    intro c ids row
    unfold Column.complete
    split
    · exact Dialogue.quiet_pure _
    · refine (hgenerate ids c.policy).bind fun result => ?_
      rcases result with ⟨ids', e | _ | value⟩
      · exact Dialogue.quiet_pure _
      · dsimp only
        split
        · exact Dialogue.quiet_pure _
        · exact Dialogue.quiet_pure _
      · exact Dialogue.quiet_pure _
  unfold Table.completeRow
  induction t.columns generalizing ids row with
  | nil => exact Dialogue.quiet_pure _
  | cons c rest ih =>
    refine (hcolumn c ids row).bind fun result => ?_
    rcases result with ⟨ids', e | row'⟩
    · exact Dialogue.quiet_pure _
    · exact ih ids' row'

/-- What a table makes of a row that it completes. -/
theorem Table.completeRow_spec {t : Table}
    (h : (t.completeRow shortener ids row).MayReturn (ids', .ok row')) :
    row.CompletedBy row' t.columns :=
  Table.completeWith_spec h

end

end PipelineEngine
