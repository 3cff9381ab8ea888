import PipelineEngine.Value.Basic

/-!
# Comparing and testing values

`Value.same` is equality of JSON trees; an integer and a float are never the
same tree.  `Value.equal` is the `==` of expressions: at the top it compares
numbers by value, two integers exactly and any other pair as doubles.
`Value.truthy` says which values count as true in a condition.
-/

namespace PipelineEngine

namespace Number

/-- The double nearest to the number. -/
def toFloat : Number → Float
  | .int n => Float.ofInt n
  | .float x => x

/-- Equality of number tokens: of one kind and with one value. -/
def same : Number → Number → Bool
  | .int a, .int b => a == b
  | .float a, .float b => a == b
  | _, _ => false

/-- Equality by value: two integers exactly, any other pair as doubles. -/
def equal : Number → Number → Bool
  | .int a, .int b => a == b
  | a, b => a.toFloat == b.toFloat

end Number

namespace Value

mutual

/-- Equality of trees. -/
def same : Value → Value → Bool
  | .null, .null => true
  | .bool a, .bool b => a == b
  | .number a, .number b => a.same b
  | .string a, .string b => a == b
  | .array a, .array b => sameItems a b
  | .object a, .object b => sameFields a b
  | _, _ => false

/-- Equality of arrays, item by item. -/
def sameItems : List Value → List Value → Bool
  | [], [] => true
  | a :: as, b :: bs => same a b && sameItems as bs
  | _, _ => false

/-- Equality of objects, field by field in order of names. -/
def sameFields : List (String × Value) → List (String × Value) → Bool
  | [], [] => true
  | (k, a) :: as, (l, b) :: bs => k == l && same a b && sameFields as bs
  | _, _ => false

end

/-- The equality of expressions: numbers by value, anything else as trees. -/
def equal : Value → Value → Bool
  | .number a, .number b => a.equal b
  | a, b => same a b

/-- Null, false, zero and the empty string are false; all else is true. -/
def truthy : Value → Bool
  | .null => false
  | .bool b => b
  | .number n => n.toFloat != 0.0
  | .string s => !s.isEmpty
  | .array _ => true
  | .object _ => true

end Value

end PipelineEngine
