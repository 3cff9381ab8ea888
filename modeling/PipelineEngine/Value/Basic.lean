import PipelineEngine.Fields
import PipelineEngine.Text.Cut
import PipelineEngine.Word

/-!
# Values

The dynamic values that flow through pipelines: JSON trees whose integers and
floats are kept apart.  An object holds its fields in increasing order of names,
so two objects with the same fields are the same value whatever order they were
written in.  Values are written into objects at dotted paths.
-/

namespace PipelineEngine

/-- A number: an integer of at most 64 bits, signed or unsigned, or a finite
double. -/
inductive Number where
  | int (n : Int)
  | float (x : Float)
deriving Repr, Inhabited, DecidableEq

/-- The integers that a number holds: from `-2^63` up to below `2^64`. -/
def Number.inRange (n : Int) : Bool :=
  decide (-(Word.bound 63 : Int) ≤ n) && decide (n < Word.bound 64)

/-- A JSON value. -/
inductive Value where
  | null
  | bool (b : Bool)
  | number (n : Number)
  | string (s : String)
  | array (items : List Value)
  | object (fields : List (String × Value))
deriving Inhabited

namespace Value

/-- The value of an integer. -/
def int (n : Int) : Value := .number (.int n)

/-- The value of a natural number. -/
def nat (n : Nat) : Value := .number (.int n)

/-- The value of a float; JSON has no infinities and no NaN, which become null. -/
def ofFloat (x : Float) : Value :=
  if x.isFinite then .number (.float x) else .null

/-- The value of an object written as a list of pairs; the last of equal names
stays. -/
def ofPairs (pairs : List (String × Value)) : Value :=
  .object (Fields.ofList pairs)

/-- The value of an optional value, null for none. -/
def ofOption (v : Option Value) : Value := v.getD .null

/-- The field of an object under a name. -/
def field? (v : Value) (name : String) : Option Value :=
  match v with
  | .object fields => Fields.get? fields name
  | _ => none

def isNull : Value → Bool
  | .null => true
  | _ => false

def string? : Value → Option String
  | .string s => some s
  | _ => none

def bool? : Value → Option Bool
  | .bool b => some b
  | _ => none

def array? : Value → Option (List Value)
  | .array items => some items
  | _ => none

def object? : Value → Option (Fields Value)
  | .object fields => some fields
  | _ => none

/-- A natural number that was written as an integer. -/
def nat? : Value → Option Nat
  | .number (.int (.ofNat n)) => some n
  | _ => none

end Value

/-! ## Dotted paths

Writing a value at a dotted path of an object.  Empty components of the path are
dropped; missing objects on the way are created, and a value on the way that is
no object gives way to one.  `Fields.read?` is the matching reading.
-/

/-- The components of a dotted path. -/
def pathComponents (path : String) : List String :=
  (piecesText '.' path).filter fun piece => !piece.isEmpty

namespace Fields

/-- The object standing under a name, empty when none stands there. -/
def objectAt (fields : Fields Value) (name : String) : Fields Value :=
  match fields.get? name with
  | some (.object inner) => inner
  | _ => []

/-- Writes a value at a list of components. -/
def writeAt (value : Value) : List String → Fields Value → Fields Value
  | [], fields => fields
  | [name], fields => fields.insert name value
  | name :: rest, fields =>
    fields.insert name (.object (writeAt value rest (fields.objectAt name)))

/-- Writes a value at a dotted path. -/
def write (fields : Fields Value) (path : String) (value : Value) : Fields Value :=
  writeAt value (pathComponents path) fields

end Fields

/-- Reads a value at a list of components. -/
def Value.readAt? : List String → Value → Option Value
  | [], v => some v
  | name :: rest, v => (v.field? name).bind (readAt? rest)

/-- Reads the value at a dotted path of an object. -/
def Fields.read? (fields : Fields Value) (path : String) : Option Value :=
  (Value.object fields).readAt? (pathComponents path)

end PipelineEngine
