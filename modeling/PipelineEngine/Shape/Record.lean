import PipelineEngine.Shape.Node

/-!
# Records

Reading a node as a record with known fields.  A mapping names its fields: unknown
ones are ignored and a repeated one is refused.  A sequence gives the fields in
their order: none may follow the last, and the missing ones at the end take their
defaults.  A record that was written as an object is read field by field
(`read_ofValues`).
-/

namespace PipelineEngine

/-- A node read as a record. -/
structure Record where
  /-- The fields that are written, each once. -/
  fields : List (String × Node)
  /-- The fields were given by position. -/
  positional : Bool

namespace Record

/-- The field that a key names among the known fields: by its name, or by its
position when the key is a number. -/
private def keyName? (names : List String) : Node → Option (Option String)
  | .number (.int (.ofNat n)) => some names[n]?
  | key => key.asString.map fun name => if name ∈ names then some name else none

/-- The known fields of a mapping, `none` when one is repeated or a key is no
text. -/
private def ofEntries (names : List String) : List (Node × Node) → Option (List (String × Node))
  | [] => some []
  | (key, node) :: rest => do
    let name ← keyName? names key
    let more ← ofEntries names rest
    match name with
    | none => return more
    | some name => if more.any (·.1 = name) then none else return (name, node) :: more

/-- Reads a node as a record with the given fields. -/
def read (names : List String) : Node → Option Record
  | .seq items => positional? items
  | .tagged _ (.seq items) => positional? items
  | node => do
    let entries ← node.asEntries
    return ⟨← ofEntries names entries, false⟩
where
  positional? (items : List Node) : Option Record :=
    if items.length ≤ names.length then some ⟨names.zip items, true⟩ else none

/-- Known fields that are named once each are all read. -/
theorem ofEntries_strings {names : List String} {pairs : List (String × Node)}
    (hnames : ∀ p ∈ pairs, p.1 ∈ names) (hnodup : (pairs.map (·.1)).Nodup) :
    ofEntries names (pairs.map fun p => (.string p.1, p.2)) = some pairs := by
  induction pairs with
  | nil => rfl
  | cons p rest ih =>
    rw [List.map_cons, List.nodup_cons] at hnodup
    have hrest := ih (fun q hq => hnames q (List.mem_cons_of_mem p hq)) hnodup.2
    have hname : keyName? names (.string p.1) = some (some p.1) :=
      congrArg some (if_pos (hnames p List.mem_cons_self))
    have hfresh : rest.any (fun q => decide (q.1 = p.1)) = false := by
      rw [List.any_eq_false]
      intro q hq heq
      exact hnodup.1 (List.mem_map.2 ⟨q, hq, of_decide_eq_true heq⟩)
    simp only [List.map_cons, ofEntries, hname, hrest, Option.bind_eq_bind, Option.bind_some,
      hfresh]
    rfl

theorem read_strings {names : List String} {pairs : List (String × Node)}
    (hnames : ∀ p ∈ pairs, p.1 ∈ names) (hnodup : (pairs.map (·.1)).Nodup) :
    read names (.map (pairs.map fun p => (.string p.1, p.2))) = some ⟨pairs, false⟩ := by
  simp only [read, Node.asEntries, ofEntries_strings hnames hnodup, Option.bind_eq_bind,
    Option.bind_some, Option.pure_def]

/-- The node of a field. -/
def field? (r : Record) (name : String) : Option Node := r.fields.lookup name

/-- A field that must be written. -/
def required {α : Type} (r : Record) (name : String) (item : Node → Option α) : Option α :=
  (r.field? name).bind item

/-- A field with a default. -/
def defaulted {α : Type} (r : Record) (name : String) (default : α) (item : Node → Option α) :
    Option α :=
  match r.field? name with
  | some node => item node
  | none => some default

/-- A field that may be left out or null. -/
def optional {α : Type} (r : Record) (name : String) (item : Node → Option α) :
    Option (Option α) :=
  r.defaulted name none (Node.asOptional item)

/-- A field that may be null, and left out only where fields are named. -/
def nullable {α : Type} (r : Record) (name : String) (item : Node → Option α) :
    Option (Option α) :=
  match r.field? name with
  | some node => node.asOptional item
  | none => if r.positional then none else some none

/-! ## Records of values -/

/-- The record of fields that are written by name. -/
def ofValues (pairs : List (String × Value)) : Record :=
  ⟨pairs.map fun p => (p.1, Node.ofValue p.2), false⟩

variable {pairs : List (String × Value)} {name s : String} {v : Value} {α : Type}

theorem read_ofValues {names : List String} (hnames : ∀ p ∈ pairs, p.1 ∈ names)
    (hnodup : (pairs.map (·.1)).Nodup) :
    read names (.map (pairs.map fun p => (.string p.1, Node.ofValue p.2))) =
      some (ofValues pairs) := by
  have hread := @read_strings names (pairs.map fun p => (p.1, Node.ofValue p.2))
    (List.forall_mem_map.2 hnames) (by rwa [List.map_map])
  rwa [List.map_map] at hread

theorem field?_ofValues (hnodup : (pairs.map (·.1)).Nodup) (h : (name, v) ∈ pairs) :
    (ofValues pairs).field? name = some (Node.ofValue v) := by
  show (pairs.map fun p => (p.1, Node.ofValue p.2)).lookup name = _
  induction pairs with
  | nil => cases h
  | cons p rest ih =>
    rw [List.map_cons, List.nodup_cons] at hnodup
    rw [List.map_cons, List.lookup_cons]
    rcases List.mem_cons.1 h with rfl | hrest
    · rw [beq_self_eq_true]
    · have hne : name ≠ p.1 := fun heq => hnodup.1 (List.mem_map.2 ⟨_, hrest, heq⟩)
      rw [beq_false_of_ne hne]
      exact ih hnodup.2 hrest

/-- A field that is not written. -/
theorem field?_ofValues_of_notMem (h : name ∉ pairs.map (·.1)) :
    (ofValues pairs).field? name = none := by
  refine List.lookup_eq_none_iff.2 fun p hp => bne_iff_ne.2 fun heq => h ?_
  obtain ⟨q, hq, rfl⟩ := List.mem_map.1 hp
  exact List.mem_map.2 ⟨q, hq, heq.symm⟩

section
variable (hnodup : (pairs.map (·.1)).Nodup)
include hnodup

theorem required_string (h : (name, .string s) ∈ pairs) :
    (ofValues pairs).required name Node.asString = some s := by
  rw [required, field?_ofValues hnodup h, Option.bind_some, Node.asString_ofValue]

theorem required_bind {f : String → Option α} (h : (name, .string s) ∈ pairs) :
    (ofValues pairs).required name (fun n => n.asString.bind f) = f s := by
  rw [required, field?_ofValues hnodup h, Option.bind_some, Node.asString_ofValue, Option.bind_some]

theorem required_choice {choices : List (String × α)} (h : (name, .string s) ∈ pairs) :
    (ofValues pairs).required name (Node.asChoice choices) = choices.lookup s := by
  rw [required, field?_ofValues hnodup h, Option.bind_some, Node.asChoice_ofValue]

theorem nullable_ofOption {o : Option α} {f : α → Value} {item : Node → Option α}
    (h : (name, .ofOption (o.map f)) ∈ pairs)
    (hitem : ∀ a ∈ o, (Node.ofValue (f a)).asOptional item = some (some a)) :
    (ofValues pairs).nullable name item = some o := by
  simp only [nullable, field?_ofValues hnodup h, Node.asOptional_ofOption hitem]

end

end Record

end PipelineEngine
