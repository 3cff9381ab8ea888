import PipelineEngine.Value.Print

/-!
# Expressions

Conditions and mapping sources:

    expr      := or
    or        := and (("||" | "or") and)*
    and       := eq (("&&" | "and") eq)*
    eq        := unary (("==" | "!=") unary)?
    unary     := ("!" | "not") unary | primary
    primary   := "(" expr ")" | literal | reference
    reference := "$\x7b" path "\x7d" | path
    path      := root ("." name | "[" index "]")*
    root      := "args" | "env" | "pipeline" "[" index "]" | "outcome" | name
    literal   := 'text' | "text" | number | true | false | null

A mapping source may also be a template, text with references in it.
-/

namespace PipelineEngine

/-- Where a reference starts. -/
inductive Root where
  | args
  | env
  /-- The output of the explicit step at a position. -/
  | pipeline (position : Nat)
  | outcome
  /-- A step that has run, or else a field of the outcome. -/
  | named (name : String)
deriving Repr, Inhabited, DecidableEq

/-- One step of a reference into a value. -/
inductive PathSegment where
  | field (name : String)
  | index (position : Nat)
deriving Repr, Inhabited, DecidableEq

/-- A segment as it is written. -/
def PathSegment.text : PathSegment → String
  | .field name => "." ++ name
  | .index position => "[" ++ Numeral.decimal position ++ "]"

/-- A reference together with the text it was read from. -/
structure Reference where
  raw : String
  root : Root
  path : List PathSegment
deriving Repr, Inhabited, DecidableEq

/-- The step that a reference addresses by name. -/
def Reference.stepName? (r : Reference) : Option String :=
  match r.root with
  | .named name => some name
  | _ => none

/-- A piece of a template. -/
inductive Segment where
  | text (s : String)
  | ref (r : Reference)
deriving Repr, Inhabited, DecidableEq

/-- An expression. -/
inductive Expr where
  | literal (v : Value)
  | ref (r : Reference)
  | template (segments : List Segment)
  | not (inner : Expr)
  | eq (left right : Expr)
  | ne (left right : Expr)
  | and (left right : Expr)
  | or (left right : Expr)
deriving Inhabited

/-- The reference of a template segment. -/
def Segment.ref? : Segment → Option Reference
  | .text _ => none
  | .ref r => some r

/-- Every reference of an expression, in the order of the source. -/
def Expr.references : Expr → List Reference
  | .literal _ => []
  | .ref r => [r]
  | .template segments => segments.filterMap Segment.ref?
  | .not inner => inner.references
  | .eq left right | .ne left right | .and left right | .or left right =>
    left.references ++ right.references

/-! ## Errors -/

/-- Why a text is no expression. -/
inductive SyntaxReason where
  | emptyExpression
  | unexpectedCharacter
  | unterminatedReference
  | unterminatedString
  | invalidNumber (text : String)
  | expectedReference
  | pipelineNeedsIndex
  | expectedField
  | unexpectedInReference
  | expectedIndex
  | expectedClosingBracket
  | indexOutOfRange
  | unexpectedToken
  | unexpectedEnd
  | expectedClosingParenthesis
  | expectedValue
deriving Repr, DecidableEq

def SyntaxReason.message : SyntaxReason → String
  | .emptyExpression => "empty expression"
  | .unexpectedCharacter => "unexpected character"
  | .unterminatedReference => "unterminated '$\x7b'"
  | .unterminatedString => "unterminated string"
  | .invalidNumber text => "invalid number '" ++ text ++ "'"
  | .expectedReference => "expected a reference"
  | .pipelineNeedsIndex => "pipeline references need an index"
  | .expectedField => "expected a field name"
  | .unexpectedInReference => "unexpected character in reference"
  | .expectedIndex => "expected an index"
  | .expectedClosingBracket => "expected ']'"
  | .indexOutOfRange => "index out of range"
  | .unexpectedToken => "unexpected token"
  | .unexpectedEnd => "unexpected end of expression"
  | .expectedClosingParenthesis => "expected ')'"
  | .expectedValue => "expected a value"

/-- A fault found while reading a source, with the number of bytes before it. -/
structure SyntaxFault where
  offset : Nat
  reason : SyntaxReason
deriving Repr, DecidableEq

/-- Why a reference has no value. -/
structure UnresolvedReference where
  reference : String
  reason : String
deriving Repr, DecidableEq

/-- Why an expression could not be read or evaluated. -/
inductive ExpressionError where
  | malformed (expression : String) (fault : SyntaxFault)
  | unresolved (error : UnresolvedReference)
deriving Repr, DecidableEq

def UnresolvedReference.message (e : UnresolvedReference) : String :=
  "Unresolved reference '" ++ e.reference ++ "': " ++ e.reason

def ExpressionError.message : ExpressionError → String
  | .malformed expression fault =>
    "Malformed expression '" ++ expression ++ "' at offset " ++ Numeral.decimal fault.offset ++
      ": " ++ fault.reason.message
  | .unresolved error => error.message

end PipelineEngine
