import PipelineEngine.Proofs.Fields
import PipelineEngine.Value.Basic

/-!
# Laws of dotted paths

What reads back after a value was written at a path, and when two writes can change places.
Paths are compared by their components.

* `Value.readAt?_writeAt_append`: below the written path the written value is read.
* `Value.readAt?_writeAt_prefix`: above it an object is read.
* `Value.readAt?_writeAt_of_apart`: anywhere else what was read before is read.
* `Fields.writeAt_comm`: writes at paths that are apart can change places.

Each is an induction on the written path.
-/

namespace PipelineEngine

/-- Neither path leads to the other or through it. -/
def PathsApart (p q : List String) : Prop := ¬ p <+: q ∧ ¬ q <+: p

instance (p q : List String) : Decidable (PathsApart p q) :=
  inferInstanceAs (Decidable (¬ p <+: q ∧ ¬ q <+: p))

theorem PathsApart.symm {p q : List String} (h : PathsApart p q) : PathsApart q p := ⟨h.2, h.1⟩

/-- Paths that are apart part at their first components or later. -/
theorem PathsApart.cons_iff {name other : String} {p q : List String} :
    PathsApart (name :: p) (other :: q) ↔ name ≠ other ∨ PathsApart p q := by
  simp only [PathsApart, List.cons_prefix_cons]
  by_cases h : name = other
  · simp [h]
  · simp [h, Ne.symm h]

/-- The path with no components leads to every other. -/
theorem PathsApart.ne_nil {p q : List String} (h : PathsApart p q) : p ≠ [] := by
  rintro rfl
  exact h.1 List.nil_prefix

/-! ## One component -/

namespace Fields

/-- What a write leaves under the first component of its path, where `inner` was the object
there. -/
def leaves (value : Value) (rest : List String) (inner : Fields Value) : Value :=
  match rest with
  | [] => value
  | _ => .object (writeAt value rest inner)

variable {value : Value} {fields inner : Fields Value} {name other : String} {rest : List String}

theorem writeAt_cons :
    writeAt value (name :: rest) fields =
      fields.insert name (leaves value rest (fields.objectAt name)) := by
  cases rest <;> rfl

theorem leaves_of_ne_nil (h : rest ≠ []) :
    leaves value rest inner = .object (writeAt value rest inner) := by
  cases rest with
  | nil => exact absurd rfl h
  | cons => rfl

theorem objectAt_insert_of_ne (h : other ≠ name) :
    (fields.insert name value).objectAt other = fields.objectAt other := by
  rw [objectAt, get?_insert, if_neg h, objectAt]

theorem objectAt_insert_object : (fields.insert name (.object inner)).objectAt name = inner := by
  rw [objectAt, get?_insert, if_pos rfl]

end Fields

namespace Value

variable {value v : Value} {fields : Fields Value} {name other : String} {p q rest : List String}

/-- Nothing is read below a value that is no object, as in the empty object. -/
theorem readAt?_object_cons (h : rest ≠ []) :
    (object fields).readAt? (name :: rest) = (object (fields.objectAt name)).readAt? rest := by
  obtain ⟨next, rest, rfl⟩ := List.exists_cons_of_ne_nil h
  show (Fields.get? fields name).bind (readAt? (next :: rest)) = _
  rw [Fields.objectAt]
  cases Fields.get? fields name with
  | none => rfl
  | some inner => cases inner <;> rfl

theorem readAt?_writeAt_cons_self :
    (object (Fields.writeAt value (name :: p) fields)).readAt? (name :: q) =
      (Fields.leaves value p (fields.objectAt name)).readAt? q := by
  rw [Fields.writeAt_cons, readAt?, field?, Fields.get?_insert, if_pos rfl, Option.bind_some]

theorem readAt?_writeAt_cons_of_ne (h : other ≠ name) :
    (object (Fields.writeAt value (name :: p) fields)).readAt? (other :: q) =
      (object fields).readAt? (other :: q) := by
  rw [Fields.writeAt_cons, readAt?, field?, Fields.get?_insert, if_neg h, readAt?, field?]

/-! ## Reading after a write -/

theorem readAt?_writeAt_append (hp : p ≠ []) :
    (object (Fields.writeAt value p fields)).readAt? (p ++ rest) = value.readAt? rest := by
  induction p generalizing fields with
  | nil => exact absurd rfl hp
  | cons name p ih =>
    rw [List.cons_append, readAt?_writeAt_cons_self]
    by_cases hlast : p = []
    · subst hlast
      rfl
    · rw [Fields.leaves_of_ne_nil hlast]
      exact ih hlast

theorem readAt?_writeAt_prefix (hrest : rest ≠ []) :
    ∃ inner, (object (Fields.writeAt value (q ++ rest) fields)).readAt? q =
      some (object inner) := by
  induction q generalizing fields with
  | nil => exact ⟨_, rfl⟩
  | cons name q ih =>
    have hne : q ++ rest ≠ [] := List.append_ne_nil_of_right_ne_nil q hrest
    rw [List.cons_append, readAt?_writeAt_cons_self, Fields.leaves_of_ne_nil hne]
    exact ih

theorem readAt?_writeAt_of_apart (h : PathsApart p q) :
    (object (Fields.writeAt value p fields)).readAt? q = (object fields).readAt? q := by
  induction p generalizing q fields with
  | nil => exact absurd rfl h.ne_nil
  | cons name p ih =>
    obtain ⟨other, q, rfl⟩ := List.exists_cons_of_ne_nil h.symm.ne_nil
    by_cases hname : other = name
    · subst hname
      have hrest : PathsApart p q := by simpa [PathsApart.cons_iff] using h
      rw [readAt?_writeAt_cons_self, Fields.leaves_of_ne_nil hrest.ne_nil, ih hrest,
        readAt?_object_cons hrest.symm.ne_nil]
    · exact readAt?_writeAt_cons_of_ne hname

end Value

/-! ## Writes that change places -/

theorem Fields.writeAt_comm {p q : List String} (h : PathsApart p q) (v w : Value)
    (fields : Fields Value) :
    writeAt v p (writeAt w q fields) = writeAt w q (writeAt v p fields) := by
  induction p generalizing q fields with
  | nil => exact absurd rfl h.ne_nil
  | cons name p ih =>
    obtain ⟨other, q, rfl⟩ := List.exists_cons_of_ne_nil h.symm.ne_nil
    simp only [writeAt_cons]
    by_cases hname : name = other
    · subst hname
      have hrest : PathsApart p q := by simpa [PathsApart.cons_iff] using h
      simp only [leaves_of_ne_nil hrest.ne_nil, leaves_of_ne_nil hrest.symm.ne_nil,
        objectAt_insert_object, insert_insert_self, ih hrest]
    · rw [objectAt_insert_of_ne hname, objectAt_insert_of_ne (Ne.symm hname),
        insert_comm hname]

end PipelineEngine
