import PipelineEngine.Decimal.Read
import PipelineEngine.Value.Basic
import PipelineEngine.Word

/-!
# Scalars of YAML

What a scalar means under the core schema of YAML 1.2.  Only a plain scalar can be
null, a boolean or a number; every other scalar is text.  An explicit tag of the
core schema asks for one of the kinds, and a scalar that is not of that kind has
no meaning.  Digits after a leading zero are text.
-/

namespace PipelineEngine.Yaml

/-- How a scalar is written. -/
inductive Style where
  | plain
  | quoted
  | literal
  | folded
deriving Repr, Inhabited, DecidableEq

/-- A scalar with its tag, when it has one that is not local. -/
structure Scalar where
  text : String
  style : Style
  tag : Option String
deriving Repr, Inhabited, DecidableEq

/-- The tag of a kind of the core schema. -/
def coreTag (kind : String) : String := "tag:yaml.org,2002:" ++ kind

/-- The words for null. -/
def isNullWord (s : String) : Bool := s ∈ ["null", "Null", "NULL", "~"]

/-- The value of a word for a boolean. -/
def boolWord? (s : String) : Option Bool :=
  if s ∈ ["true", "True", "TRUE"] then some true
  else if s ∈ ["false", "False", "FALSE"] then some false
  else none

/-- Whether the text has two or more digits of which the first is a zero. -/
def hasLeadingZero (s : List Char) : Bool :=
  let digits :=
    match s with
    | '-' :: rest => rest
    | '+' :: rest => rest
    | rest => rest
  digits.length > 1 && digits.head? == some '0' && digits.all Numeral.isDigit

private def signed (s : List Char) : Bool := s.head? == some '+' || s.head? == some '-'

/-- The magnitude of a numeral in one of the four bases. -/
def magnitude? (s : List Char) : Option Nat :=
  match s with
  | '0' :: 'x' :: rest => if signed rest then none else Numeral.digits? 16 rest
  | '0' :: 'o' :: rest => if signed rest then none else Numeral.digits? 8 rest
  | '0' :: 'b' :: rest => if signed rest then none else Numeral.digits? 2 rest
  | rest => if signed rest then none else Numeral.digits? 10 rest

/-- A number without sign, or with a plus sign. -/
def natural? (s : List Char) : Option Nat :=
  if hasLeadingZero s then none
  else
    match s with
    | '+' :: rest => magnitude? rest
    | rest => magnitude? rest

/-- A number with an optional sign. -/
def integer? (s : List Char) : Option Int :=
  if hasLeadingZero s then none
  else
    match s with
    | '-' :: rest => (magnitude? rest).map fun n => -(n : Int)
    | rest => (natural? rest).map Int.ofNat

/-- A float, one of the words for infinity and NaN included. -/
def float? (s : List Char) : Option Float :=
  let unsigned :=
    match s with
    | '+' :: rest => rest
    | rest => rest
  if s.head? == some '+' && signed unsigned then none
  else if String.ofList unsigned ∈ [".inf", ".Inf", ".INF"] then some (1.0 / 0.0)
  else if String.ofList s ∈ ["-.inf", "-.Inf", "-.INF"] then some (-1.0 / 0.0)
  else if String.ofList s ∈ [".nan", ".NaN", ".NAN"] then some (0.0 / 0.0)
  else Decimal.nearest? unsigned

/-- The integer of a numeral that 128 bits hold, signed or unsigned; a longer
one is no integer. -/
def wideInteger? (s : List Char) : Option Int :=
  (integer? s).filter fun n => -(Word.bound 127 : Int) ≤ n && n < Word.bound 128

/-- What a scalar stands for. -/
inductive Meaning where
  | null
  | bool (b : Bool)
  | int (n : Int)
  | float (x : Float)
  | text (s : String)
deriving Repr, DecidableEq

/-- The meaning of a plain scalar without a tag. -/
def plainMeaning (s : String) : Meaning :=
  if s.isEmpty || isNullWord s then .null
  else
    match boolWord? s with
    | some b => .bool b
    | none =>
      match wideInteger? s.toList with
      | some n => .int n
      | none =>
        if hasLeadingZero s.toList then .text s
        else
          match float? s.toList with
          | some x => .float x
          | none => .text s

namespace Scalar

/-- The meaning of a scalar, `none` when it is not of the kind its tag names. -/
def meaning? (s : Scalar) : Option Meaning :=
  match s.tag with
  | some tag =>
    if tag = coreTag "bool" then (boolWord? s.text).map .bool
    else if tag = coreTag "int" then (wideInteger? s.text.toList).map .int
    else if tag = coreTag "float" then (float? s.text.toList).map .float
    else if tag = coreTag "null" then if isNullWord s.text then some .null else none
    else some (.text s.text)
  | none => some (if s.style = .plain then plainMeaning s.text else .text s.text)

/-- Whether a number or a boolean is looked for in the scalar: it is plain, or a
literal block with the tag of that kind. -/
def admits (s : Scalar) (kind : String) : Bool :=
  s.style = .plain || (s.style = .literal && s.tag == some (coreTag kind))

/-- Whether nothing is written. -/
def isBlank (s : Scalar) : Bool := s.text.isEmpty && s.style = .plain

end Scalar

end PipelineEngine.Yaml
