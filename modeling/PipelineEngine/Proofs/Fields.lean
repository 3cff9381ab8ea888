import PipelineEngine.Fields

/-!
# Laws of fields

How the other writes of a map read back, and that they keep its names in order.

* `get?_extend` and `get?_extend_of_sorted`: a name reads the last value that was written
  under it, or else what it read before.
* `sorted_insert`, `sorted_extend`, `sorted_ofList`: the names stay in increasing order.
* `mem_names_insert`, `mem_names_extend`: the names of a map after a write.
* `extend_extend_self`, `extend_ofList`: a map is written twice as it is written once, and the
  map of some pairs as the pairs.
-/

namespace PipelineEngine.Fields

variable {α β : Type}

/-! ## Reading -/

theorem get?_cons_self (name : String) (value : α) (rest : Fields α) :
    get? ((name, value) :: rest) name = some value := by
  simp [get?]

theorem get?_cons_of_ne {name other : String} (h : other ≠ name) (value : α) (rest : Fields α) :
    get? ((name, value) :: rest) other = get? rest other := by
  simp [get?, h]

theorem get?_append (a b : Fields α) (name : String) :
    Fields.get? (a ++ b) name = (a.get? name).or (b.get? name) := by
  induction a with
  | nil => simp
  | cons kv rest ih =>
    obtain ⟨k, v⟩ := kv
    by_cases hk : name = k <;> simp [get?, hk, ih]

theorem mem_of_get? {fields : Fields α} {name : String} {value : α}
    (h : fields.get? name = some value) : (name, value) ∈ fields := by
  induction fields with
  | nil => simp at h
  | cons kv rest ih =>
    obtain ⟨k, v⟩ := kv
    by_cases hk : name = k
    · simp only [get?, hk, if_true, Option.some.injEq] at h
      simp [hk, h]
    · simp only [get?, hk, if_false] at h
      exact List.mem_cons_of_mem _ (ih h)

/-- A name reads a value exactly when it is one of the names. -/
theorem isSome_get?_iff {fields : Fields α} {name : String} :
    (fields.get? name).isSome ↔ name ∈ fields.names := by
  induction fields with
  | nil => simp [names]
  | cons kv rest ih =>
    obtain ⟨k, v⟩ := kv
    by_cases hk : name = k
    · simp [get?, names, hk]
    · simp only [get?, hk, if_false, ih]
      simp [names, hk]

theorem get?_eq_none_iff {fields : Fields α} {name : String} :
    fields.get? name = none ↔ name ∉ fields.names := by
  rw [← isSome_get?_iff]
  cases fields.get? name <;> simp

/-- A map on the values keeps the names. -/
theorem get?_map (f : String → α → β) (fields : Fields α) (name : String) :
    Fields.get? (fields.map fun (k, v) => (k, f k v)) name = (fields.get? name).map (f name) := by
  induction fields with
  | nil => rfl
  | cons kv rest ih =>
    obtain ⟨k, v⟩ := kv
    by_cases hk : name = k
    · subst hk
      simp [get?]
    · simp [get?, hk, ih]

/-! ## Writing several values -/

/-- A name reads the last value that is written under it, or else what it read
before. -/
theorem get?_extend (fields : Fields α) (pairs : List (String × α)) (name : String) :
    (fields.extend pairs).get? name =
      (Fields.get? pairs.reverse name).or (fields.get? name) := by
  induction pairs generalizing fields with
  | nil => simp [extend]
  | cons kv rest ih =>
    obtain ⟨k, v⟩ := kv
    have hstep : fields.extend ((k, v) :: rest) = (insert k v fields).extend rest := rfl
    rw [hstep, ih, get?_insert, List.reverse_cons, get?_append]
    by_cases hk : name = k
    · simp only [hk, if_true, get?]
      cases Fields.get? rest.reverse k <;> rfl
    · simp only [hk, if_false, get?]
      cases Fields.get? rest.reverse name <;> rfl

/-! ## Names -/

theorem mem_names_insert {fields : Fields α} {name other : String} {value : α} :
    other ∈ (insert name value fields).names ↔ other = name ∨ other ∈ fields.names := by
  rw [← isSome_get?_iff, get?_insert, ← isSome_get?_iff]
  by_cases h : other = name <;> simp [h]

theorem mem_names_extend {fields : Fields α} {pairs : List (String × α)} {name : String} :
    name ∈ (fields.extend pairs).names ↔ name ∈ pairs.map (·.1) ∨ name ∈ fields.names := by
  induction pairs generalizing fields with
  | nil => simp [extend]
  | cons kv rest ih =>
    obtain ⟨k, v⟩ := kv
    have hstep : fields.extend ((k, v) :: rest) = (insert k v fields).extend rest := rfl
    rw [hstep, ih, mem_names_insert]
    simp only [List.map_cons, List.mem_cons]
    constructor
    · rintro (h | h | h)
      · exact Or.inl (Or.inr h)
      · exact Or.inl (Or.inl h)
      · exact Or.inr h
    · rintro ((h | h) | h)
      · exact Or.inr (Or.inl h)
      · exact Or.inl h
      · exact Or.inr (Or.inr h)

/-! ## The order of names -/

theorem sorted_nil : Sorted ([] : Fields α) := List.Pairwise.nil

/-- Only the names decide whether fields are in order. -/
theorem sorted_iff_names {fields : Fields α} :
    fields.Sorted ↔ fields.names.Pairwise (· < ·) := by
  rw [names, List.pairwise_map]
  rfl

theorem sorted_insert {fields : Fields α} (name : String) (value : α) (h : fields.Sorted) :
    (insert name value fields).Sorted := by
  induction fields with
  | nil => simp [insert, Sorted]
  | cons kv rest ih =>
    obtain ⟨k, v⟩ := kv
    obtain ⟨hk, hrest⟩ := List.pairwise_cons.1 h
    rw [insert]
    split
    · rename_i heq
      subst heq
      exact List.pairwise_cons.2 ⟨hk, hrest⟩
    · split
      · rename_i hlt
        refine List.pairwise_cons.2 ⟨?_, h⟩
        intro b hb
        rcases List.mem_cons.1 hb with rfl | hb
        · exact hlt
        · exact String.lt_trans hlt (hk b hb)
      · rename_i hne hlt
        have hgt : k < name := Std.lt_of_le_of_ne hlt (Ne.symm hne)
        refine List.pairwise_cons.2 ⟨?_, ih hrest⟩
        intro b hb
        have hname : b.1 ∈ (insert name value rest).names := List.mem_map.2 ⟨b, hb, rfl⟩
        rcases mem_names_insert.1 hname with hb' | hb'
        · exact hb' ▸ hgt
        · obtain ⟨e, he, heq⟩ := List.mem_map.1 hb'
          exact heq ▸ hk e he

theorem sorted_extend {fields : Fields α} (pairs : List (String × α)) (h : fields.Sorted) :
    (fields.extend pairs).Sorted := by
  induction pairs generalizing fields with
  | nil => exact h
  | cons kv rest ih => exact ih (sorted_insert kv.1 kv.2 h)

theorem sorted_ofList (pairs : List (String × α)) : (ofList pairs).Sorted :=
  sorted_extend pairs sorted_nil

/-- In a map each name stands once, so the first and the last value under it are the
same. -/
theorem get?_reverse {fields : Fields α} (h : fields.Sorted) (name : String) :
    Fields.get? fields.reverse name = fields.get? name := by
  induction fields with
  | nil => rfl
  | cons kv rest ih =>
    obtain ⟨k, v⟩ := kv
    obtain ⟨hk, hrest⟩ := List.pairwise_cons.1 h
    rw [List.reverse_cons, get?_append, ih hrest]
    by_cases hn : name = k
    · subst hn
      have hnone : Fields.get? rest name = none := by
        rw [get?_eq_none_iff]
        intro hmem
        obtain ⟨e, he, heq⟩ := List.mem_map.1 hmem
        exact String.lt_irrefl name (heq ▸ hk e he)
      simp [get?, hnone]
    · simp only [get?, hn, if_false]
      cases Fields.get? rest name <;> rfl

/-- In a map each entry reads back. -/
theorem get?_of_mem {fields : Fields α} (h : fields.Sorted) {name : String} {value : α}
    (hmem : (name, value) ∈ fields) : fields.get? name = some value := by
  induction fields with
  | nil => cases hmem
  | cons kv rest ih =>
    obtain ⟨k, v⟩ := kv
    obtain ⟨hk, hrest⟩ := List.pairwise_cons.1 h
    rcases List.mem_cons.1 hmem with heq | hmem
    · obtain ⟨rfl, rfl⟩ := Prod.mk.inj heq
      simp [get?]
    · have hne : name ≠ k := fun heq => String.lt_irrefl k (heq ▸ hk _ hmem)
      rw [get?, if_neg hne]
      exact ih hrest hmem

/-- Writing one map over another. -/
theorem get?_extend_of_sorted (fields : Fields α) {pairs : Fields α} (h : pairs.Sorted)
    (name : String) :
    (fields.extend pairs).get? name = (pairs.get? name).or (fields.get? name) := by
  rw [get?_extend, get?_reverse h]

/-! ## Writing in another order -/

/-- Of two values that are written under one name the last stays. -/
theorem insert_insert_self (name : String) (v w : α) (fields : Fields α) :
    insert name v (insert name w fields) = insert name v fields := by
  induction fields with
  | nil => simp [insert]
  | cons kv rest ih =>
    obtain ⟨k, u⟩ := kv
    by_cases hk : name = k
    · simp [insert, hk]
    · by_cases hlt : name < k
      · simp [insert, hk, hlt]
      · simp [insert, hk, hlt, ih]

/-- Values under different names are written in any order. -/
theorem insert_comm {name other : String} (hne : name ≠ other) (v w : α) (fields : Fields α) :
    insert name v (insert other w fields) = insert other w (insert name v fields) := by
  have hasymm : name < other ↔ ¬ other < name :=
    ⟨String.lt_asymm, fun h => Std.lt_of_le_of_ne h hne⟩
  induction fields with
  | nil =>
    by_cases hlt : name < other
    · simp [insert, hne, hne.symm, hlt, hasymm.1 hlt]
    · have hgt := Classical.not_not.1 (mt hasymm.2 hlt)
      simp [insert, hne, hne.symm, hlt, hgt]
  | cons kv rest ih =>
    obtain ⟨k, u⟩ := kv
    grind [insert]

/-- A name that is not among those of some pairs is written before or after them. -/
theorem extend_insert_comm {name : String} {pairs : List (String × α)}
    (h : name ∉ pairs.map (·.1)) (v : α) (fields : Fields α) :
    (insert name v fields).extend pairs = insert name v (fields.extend pairs) := by
  induction pairs generalizing fields with
  | nil => rfl
  | cons kv rest ih =>
    obtain ⟨k, w⟩ := kv
    rw [List.map_cons, List.mem_cons, not_or] at h
    show (insert k w (insert name v fields)).extend rest =
      insert name v ((insert k w fields).extend rest)
    rw [insert_comm (Ne.symm h.1), ih h.2]

/-- A map that is written twice is written once. -/
theorem extend_extend_self {pairs : List (String × α)} (h : (pairs.map (·.1)).Nodup)
    (fields : Fields α) : (fields.extend pairs).extend pairs = fields.extend pairs := by
  induction pairs generalizing fields with
  | nil => rfl
  | cons kv rest ih =>
    obtain ⟨k, v⟩ := kv
    obtain ⟨hk, hrest⟩ := List.nodup_cons.1 h
    show (insert k v ((insert k v fields).extend rest)).extend rest =
      (insert k v fields).extend rest
    rw [← extend_insert_comm hk, insert_insert_self, ih hrest]

theorem nodup_names {fields : Fields α} (h : fields.Sorted) : fields.names.Nodup := by
  refine List.Pairwise.imp ?_ (sorted_iff_names.1 h)
  intro a b hlt heq
  exact String.lt_irrefl b (heq ▸ hlt)

/-- The first name does not come again. -/
theorem get?_rest {name : String} {value : α} {rest : Fields α}
    (h : Sorted ((name, value) :: rest)) : rest.get? name = none := by
  rw [get?_eq_none_iff]
  exact (List.nodup_cons.1 (nodup_names h)).1

/-- Writing a map after one more name was written into it is writing the map and then the
name. -/
theorem extend_insert {map : Fields α} (h : map.Sorted) (name : String) (v : α)
    (fields : Fields α) :
    fields.extend (insert name v map) = insert name v (fields.extend map) := by
  induction map generalizing fields with
  | nil => rfl
  | cons kv rest ih =>
    obtain ⟨k, w⟩ := kv
    obtain ⟨hk, hrest⟩ := List.pairwise_cons.1 h
    have hnodup := nodup_names h
    obtain ⟨hkRest, -⟩ := List.nodup_cons.1 hnodup
    rw [insert]
    split
    · rename_i heq
      subst heq
      show (insert name v fields).extend rest = insert name v ((insert name w fields).extend rest)
      rw [← extend_insert_comm hkRest, insert_insert_self]
    · rename_i hne
      split
      · rename_i hlt
        refine extend_insert_comm ?_ v fields
        intro hmem
        rcases List.mem_cons.1 hmem with heq | hmem
        · exact hne heq
        · obtain ⟨e, he, heq⟩ := List.mem_map.1 hmem
          exact String.lt_irrefl name (String.lt_trans hlt (heq ▸ hk e he))
      · exact ih hrest (insert k w fields)

/-- Writing the map of some pairs is writing the pairs. -/
theorem extend_ofList (pairs : List (String × α)) (fields : Fields α) :
    fields.extend (ofList pairs) = fields.extend pairs := by
  have hextend : ∀ (map : Fields α), map.Sorted →
      fields.extend (map.extend pairs) = (fields.extend map).extend pairs := by
    induction pairs with
    | nil => exact fun map _ => rfl
    | cons kv rest ih =>
      intro map hmap
      obtain ⟨k, v⟩ := kv
      show fields.extend ((insert k v map).extend rest) =
        (insert k v (fields.extend map)).extend rest
      rw [ih _ (sorted_insert k v hmap), extend_insert hmap]
  exact hextend [] sorted_nil

end PipelineEngine.Fields
