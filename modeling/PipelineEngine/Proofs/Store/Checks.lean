import PipelineEngine.Store.Change

/-!
# The checks of rows

What a row must satisfy, said without the order in which the columns and keys are gone
through: when a row points at another, when two rows clash, and when each of the checks
lets a row pass.

The tests look at the columns of their key and at nothing else (`points_congr`,
`isComplete_congr`, `clashes_congr`).
-/

namespace PipelineEngine

/-! ## Tests of rows -/

theorem Row.holds_iff {row : Row} {name : String} :
    row.holds name = true ↔ ∃ v, row.get? name = some v ∧ v.isNull = false := by
  unfold Row.holds
  cases row.get? name <;> simp

namespace ForeignKey

/-- The columns of a key's own table. -/
def locals (k : ForeignKey) : List String := k.columns.map (·.1)

/-- The columns that a key points at. -/
def referenced (k : ForeignKey) : List String := k.columns.map (·.2)

theorem points_iff {k : ForeignKey} {row target : Row} :
    k.points row target = true ↔ ∀ link ∈ k.columns, ∃ l r,
      row.get? link.1 = some l ∧ target.get? link.2 = some r ∧ l.isNull = false ∧
        l.equal r = true := by
  unfold points
  rw [List.all_eq_true]
  constructor
  · intro h link hlink
    have hl := h link hlink
    cases hrow : row.get? link.1 with
    | none => simp [hrow] at hl
    | some l =>
      cases htarget : target.get? link.2 with
      | none => simp [hrow, htarget] at hl
      | some r =>
        simp only [hrow, htarget, Bool.and_eq_true, Bool.not_eq_true'] at hl
        exact ⟨l, r, rfl, rfl, hl⟩
  · intro h link hlink
    obtain ⟨l, r, hrow, htarget, hnull, hequal⟩ := h link hlink
    simp [hrow, htarget, hnull, hequal]

theorem isComplete_iff {k : ForeignKey} {row : Row} :
    k.isComplete row = true ↔ ∀ link ∈ k.columns, row.holds link.1 = true := by
  unfold isComplete
  rw [List.all_eq_true]

/-- Whether a row points at another depends on the columns of the key only. -/
theorem points_congr {k : ForeignKey} {row row' target target' : Row}
    (hrow : ∀ column ∈ k.locals, row.get? column = row'.get? column)
    (htarget : ∀ column ∈ k.referenced, target.get? column = target'.get? column) :
    k.points row target = k.points row' target' := by
  rw [Bool.eq_iff_iff, points_iff, points_iff]
  refine forall_congr' fun link => forall_congr' fun hlink => ?_
  rw [hrow link.1 (List.mem_map.2 ⟨link, hlink, rfl⟩),
    htarget link.2 (List.mem_map.2 ⟨link, hlink, rfl⟩)]

theorem isComplete_congr {k : ForeignKey} {row row' : Row}
    (hrow : ∀ column ∈ k.locals, row.get? column = row'.get? column) :
    k.isComplete row = k.isComplete row' := by
  rw [Bool.eq_iff_iff, isComplete_iff, isComplete_iff]
  refine forall_congr' fun link => forall_congr' fun hlink => ?_
  rw [Row.holds_iff, Row.holds_iff, hrow link.1 (List.mem_map.2 ⟨link, hlink, rfl⟩)]

end ForeignKey

namespace Table

theorem clashes_iff {key : List String} {row other : Row} :
    clashes key row other = true ↔ ∀ name ∈ key, ∃ v o,
      row.get? name = some v ∧ other.get? name = some o ∧ v.isNull = false ∧
        o.equal v = true := by
  unfold clashes
  rw [List.all_eq_true]
  constructor
  · intro h name hname
    have hn := h name hname
    cases hrow : row.get? name with
    | none => simp [hrow] at hn
    | some v =>
      cases hother : other.get? name with
      | none => simp [hrow, hother] at hn
      | some o =>
        simp only [hrow, hother, Bool.and_eq_true, Bool.not_eq_true'] at hn
        exact ⟨v, o, rfl, rfl, hn⟩
  · intro h name hname
    obtain ⟨v, o, hrow, hother, hnull, hequal⟩ := h name hname
    simp [hrow, hother, hnull, hequal]

/-- Whether two rows clash depends on the columns of the key only. -/
theorem clashes_congr {key : List String} {row row' other other' : Row}
    (hrow : ∀ name ∈ key, row.get? name = row'.get? name)
    (hother : ∀ name ∈ key, other.get? name = other'.get? name) :
    clashes key row other = clashes key row' other' := by
  rw [Bool.eq_iff_iff, clashes_iff, clashes_iff]
  refine forall_congr' fun name => forall_congr' fun hname => ?_
  rw [hrow name hname, hother name hname]

end Table

/-! ## Checks -/

theorem Model.checkReferences_eq_ok_iff {m : Model} {t : Table} {row : Row} {d : Tables} :
    m.checkReferences t row d = .ok () ↔ ∀ k ∈ m.keysFrom t.name, k.isComplete row = true →
      ∃ target ∈ d.rows k.target, k.points row target = true := by
  unfold Model.checkReferences
  cases hfind : (m.keysFrom t.name).find? fun k =>
      k.isComplete row && !(d.rows k.target).any (k.points row) with
  | none =>
    simp only [true_iff]
    intro k hk hcomplete
    have hpass := List.find?_eq_none.1 hfind k hk
    simpa [hcomplete] using hpass
  | some k =>
    have hk := List.mem_of_find?_eq_some hfind
    have hfail := List.find?_some hfind
    simp only [Bool.and_eq_true, Bool.not_eq_true'] at hfail
    simp only [reduceCtorEq, false_iff]
    intro h
    obtain ⟨target, htarget, hpoints⟩ := h k hk hfail.1
    have hany : (d.rows k.target).any (k.points row) = true :=
      List.any_eq_true.2 ⟨target, htarget, hpoints⟩
    rw [hfail.2] at hany
    cases hany

theorem Model.mem_keysFrom_iff {m : Model} {table : String} {k : ForeignKey} :
    k ∈ m.keysFrom table ↔ k ∈ m.foreignKeys ∧ k.table = table := by
  simp [Model.keysFrom]

theorem Model.mem_keysTo_iff {m : Model} {table : String} {k : ForeignKey} :
    k ∈ m.keysTo table ↔ k ∈ m.foreignKeys ∧ k.target = table := by
  simp [Model.keysTo]

namespace Table

theorem checkUnique_eq_ok_iff {t : Table} {row : Row} {others : List Row} :
    t.checkUnique row others = .ok () ↔
      ∀ key ∈ t.uniqueKeys, ∀ other ∈ others, clashes key row other = false := by
  unfold checkUnique
  cases hfind : t.uniqueKeys.find? fun key => others.any (clashes key row) with
  | none =>
    simp only [true_iff]
    intro key hkey other hother
    have hpass := List.find?_eq_none.1 hfind key hkey
    rw [Bool.not_eq_true, List.any_eq_false] at hpass
    exact Bool.eq_false_iff.2 (hpass other hother)
  | some key =>
    have hkey := List.mem_of_find?_eq_some hfind
    have hfail := List.find?_some hfind
    obtain ⟨other, hother, hclash⟩ := List.any_eq_true.1 hfail
    simp only [reduceCtorEq, false_iff]
    intro h
    rw [h key hkey other hother] at hclash
    cases hclash

theorem checkColumns_eq_ok_iff {t : Table} {row : Row} :
    t.checkColumns row = .ok () ↔ ∀ name ∈ Fields.names row, (t.column? name).isSome := by
  unfold checkColumns
  cases hfind : (Fields.names row).find? fun name => (t.column? name).isNone with
  | none =>
    simp only [true_iff]
    intro name hname
    have hpass := List.find?_eq_none.1 hfind name hname
    simpa [Option.isSome_iff_ne_none] using hpass
  | some name =>
    have hname := List.mem_of_find?_eq_some hfind
    have hfail := List.find?_some hfind
    simp only [reduceCtorEq, false_iff]
    intro h
    have hsome := h name hname
    rw [Option.isNone_iff_eq_none.1 hfail] at hsome
    cases hsome

theorem checkChanges_eq_ok_iff {t : Table} {changes : Row} :
    t.checkChanges changes = .ok () ↔ ∀ name value, (name, value) ∈ changes →
      value.isNull = true → ∀ c, t.column? name = some c → c.isRequired = false := by
  unfold checkChanges
  split
  · rename_i name value hfind
    have hmem := List.mem_of_find?_eq_some hfind
    have hfail := List.find?_some hfind
    simp only [Bool.and_eq_true] at hfail
    obtain ⟨c, hc, hrequired⟩ := (Option.any_eq_true _ _).1 hfail.2
    simp only [reduceCtorEq, false_iff]
    intro h
    rw [h name value hmem hfail.1 c hc] at hrequired
    cases hrequired
  · rename_i hfind
    simp only [true_iff]
    intro name value hmem hnull c hc
    have hpass := List.find?_eq_none.1 hfind (name, value) hmem
    simpa [hnull, hc] using hpass

end Table

end PipelineEngine
