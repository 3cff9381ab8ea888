import PipelineEngine.Value.Basic
import PipelineEngine.Yaml.Scalar

/-!
# Nodes

A written document as a tree, before anything is known of its meaning.  A JSON
document has typed leaves; the leaves of a YAML document are scalars whose kind
depends on what is looked for in them.

Each `as…` reader gives what a node says when a given kind is wanted, and `none`
when the node has not that kind.
-/

namespace PipelineEngine

/-- A node of a written document. -/
inductive Node where
  | null
  | bool (b : Bool)
  | number (n : Number)
  | string (s : String)
  | scalar (s : Yaml.Scalar)
  | seq (items : List Node)
  | map (entries : List (Node × Node))
  /-- A node with a local tag. -/
  | tagged (tag : String) (inner : Node)
  /-- The document of an empty stream. -/
  | absent
  /-- A place where nesting or repetition went beyond what is read. -/
  | broken
deriving Inhabited

namespace Node

mutual

/-- The node of a JSON value. -/
def ofValue : Value → Node
  | .null => .null
  | .bool b => .bool b
  | .number n => .number n
  | .string s => .string s
  | .array items => .seq (ofItems items)
  | .object fields => .map (ofFields fields)

def ofItems : List Value → List Node
  | [] => []
  | v :: rest => ofValue v :: ofItems rest

def ofFields : List (String × Value) → List (Node × Node)
  | [] => []
  | (name, v) :: rest => (.string name, ofValue v) :: ofFields rest

end

/-- Whether nothing is written at the node, which then counts as an empty
collection. -/
def isBlank : Node → Bool
  | .absent => true
  | .scalar s => s.isBlank
  | .tagged _ (.scalar s) => s.isBlank
  | _ => false

/-- A text: every scalar is one. -/
def asString : Node → Option String
  | .string s => some s
  | .scalar s => some s.text
  | .tagged _ inner => inner.asString
  | _ => none

/-- A boolean. -/
def asBool : Node → Option Bool
  | .bool b => some b
  | .scalar s => if s.admits "bool" then Yaml.boolWord? s.text else none
  | .tagged _ inner => inner.asBool
  | _ => none

/-- A natural number below a bound. -/
def asNat (bound : Nat) : Node → Option Nat
  | .number (.int (.ofNat n)) => if n < bound then some n else none
  | .scalar s =>
    if s.admits "int" then (Yaml.natural? s.text.toList).filter (· < bound) else none
  | .tagged _ inner => inner.asNat bound
  | _ => none

/-- A float, for which an integer may stand. -/
def asFloat : Node → Option Float
  | .number (.int n) => some (Float.ofInt n)
  | .number (.float x) => some x
  | .scalar s => if s.admits "float" then Yaml.float? s.text.toList else none
  | .tagged _ inner => inner.asFloat
  | _ => none

/-- Something that may be left out: null stands for nothing. -/
def asOptional {α : Type} (item : Node → Option α) : Node → Option (Option α)
  | .null => some none
  | .absent => some none
  | .scalar s =>
    if s.style ≠ .plain then (item (.scalar s)).map some
    else
      match s.tag with
      | some tag =>
        if tag = Yaml.coreTag "null" then if Yaml.isNullWord s.text then some none else none
        else (item (.scalar s)).map some
      | none =>
        if s.text.isEmpty || Yaml.isNullWord s.text then some none
        else (item (.scalar s)).map some
  | node => (item node).map some

/-- A list. -/
def asList {α : Type} (item : Node → Option α) : Node → Option (List α)
  | .seq items => items.mapM item
  | .tagged _ (.seq items) => items.mapM item
  | node => if node.isBlank then some [] else none

/-- The entries of a mapping. -/
def asEntries : Node → Option (List (Node × Node))
  | .map entries => some entries
  | .tagged _ (.map entries) => some entries
  | node => if node.isBlank then some [] else none

/-- A mapping from texts to texts; the last of equal keys stays. -/
def asTexts (node : Node) : Option (Fields String) := do
  let entries ← node.asEntries
  let pairs ← entries.mapM fun (k, v) => do return (← k.asString, ← v.asString)
  return Fields.ofList pairs

/-- Whether the node stands for nothing, as the content of a named choice. -/
def isUnit : Node → Bool
  | .null => true
  | .scalar s =>
    s.style = .plain && (match s.tag with
      | some tag => tag = Yaml.coreTag "null" && Yaml.isNullWord s.text
      | none => s.text.isEmpty || Yaml.isNullWord s.text)
  | _ => false

/-- One of a list of named choices: its name, its name as the only key of a JSON
object whose value is null, or its name as the tag of nothing. -/
def asChoice {α : Type} (choices : List (String × α)) : Node → Option α
  | .string s => choices.lookup s
  | .scalar s => choices.lookup s.text
  | .map [(.string name, .null)] => choices.lookup name
  | .tagged tag inner => if inner.isUnit then choices.lookup tag else none
  | _ => none

/-! ## Free-form values -/

mutual

/-- Any value.  Local tags have no meaning here; keys are texts, and the last of
equal keys stays. -/
def asValue : Node → Option Value
  | .null => some .null
  | .bool b => some (.bool b)
  | .number (.int n) => some (.int n)
  | .number (.float x) => some (.ofFloat x)
  | .string s => some (.string s)
  | .scalar s =>
    match s.meaning? with
    | some .null => some .null
    | some (.bool b) => some (.bool b)
    | some (.int n) => if Number.inRange n then some (.int n) else none
    | some (.float x) => some (.ofFloat x)
    | some (.text t) => some (.string t)
    | none => none
  | .seq items => (asItems items).map .array
  | .map entries => (asFields entries).map .ofPairs
  | .absent => some .null
  | .tagged _ _ => none
  | .broken => none

def asItems : List Node → Option (List Value)
  | [] => some []
  | node :: rest => do
    let v ← asValue node
    let vs ← asItems rest
    return v :: vs

def asFields : List (Node × Node) → Option (List (String × Value))
  | [] => some []
  | (key, node) :: rest => do
    let name ← key.asString
    let v ← asValue node
    let more ← asFields rest
    return (name, v) :: more

end

mutual

/-- The node with the kinds of its scalars settled, as a reader sees it that does
not know yet what is looked for. -/
def settled : Node → Option Node
  | .scalar s =>
    match s.meaning? with
    | some .null => some .null
    | some (.bool b) => some (.bool b)
    | some (.int n) => if Number.inRange n then some (.number (.int n)) else none
    | some (.float x) => some (.number (.float x))
    | some (.text t) => some (.string t)
    | none => none
  | .seq items => (settledItems items).map .seq
  | .map entries => (settledEntries entries).map .map
  | .tagged _ _ => none
  | .broken => none
  | node => some node

def settledItems : List Node → Option (List Node)
  | [] => some []
  | node :: rest => do
    let n ← settled node
    let ns ← settledItems rest
    return n :: ns

def settledEntries : List (Node × Node) → Option (List (Node × Node))
  | [] => some []
  | (key, node) :: rest => do
    let k ← settled key
    let n ← settled node
    let more ← settledEntries rest
    return (k, n) :: more

end

/-! ## Nodes of values -/

theorem asString_ofValue (s : String) : (ofValue (.string s)).asString = some s := by
  rw [ofValue, asString]

theorem asOptional_ofValue_string (s : String) :
    (ofValue (.string s)).asOptional asString = some (some s) := by
  simp only [ofValue, asOptional, asString, Option.map_some]

theorem asOptional_ofValue_nat {n bound : Nat} (h : n < bound) :
    (ofValue (.nat n)).asOptional (asNat bound) = some (some n) := by
  simp only [Value.nat, ofValue, asOptional]
  exact congrArg (Option.map some) (if_pos h)

theorem asChoice_ofValue {α : Type} (choices : List (String × α)) (s : String) :
    (ofValue (.string s)).asChoice choices = choices.lookup s := by
  rw [ofValue, asChoice]

/-- What may be left out is null where it is. -/
theorem asOptional_ofOption {α : Type} {f : α → Value} {item : Node → Option α} {o : Option α}
    (h : ∀ a ∈ o, (ofValue (f a)).asOptional item = some (some a)) :
    (ofValue (.ofOption (o.map f))).asOptional item = some o := by
  cases o with
  | none =>
    simp only [Option.map_none, Value.ofOption, Option.getD_none, ofValue, asOptional]
  | some a => exact h a rfl

end Node

end PipelineEngine
