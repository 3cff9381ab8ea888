import PipelineEngine.Expression.Parser

/-!
# Mapping sources

A mapping source is an expression if the expression grammar accepts it without
the blanks at its ends.  Otherwise, when it has a reference in braces, the whole
source is a template.  When the template cannot be read either, the fault of the
expression is the one reported.
-/

namespace PipelineEngine

namespace Expr

/-- The mark that opens a reference. -/
def referenceMark : List Char := ['$', '\x7b']

/-- The mark that closes a reference. -/
def closingMark : List Char := ['\x7d']

/-- The segments of a template that stands after `offset` bytes. -/
def readTemplate (offset : Nat) (s : List Char) : Except SyntaxFault (List Segment) :=
  match h : Text.cut? referenceMark s with
  | none => .ok (if s.isEmpty then [] else [.text (String.ofList s)])
  | some (before, after) =>
    let start := offset + Utf8.size before
    match h' : Text.cut? closingMark after with
    | none => .error ⟨start, .unterminatedReference⟩
    | some (inner, rest) => do
      have : rest.length < s.length := by
        have h1 := congrArg List.length (Text.cut?_eq_some h)
        have h2 := congrArg List.length (Text.cut?_eq_some h')
        simp only [referenceMark, closingMark, List.length_append, List.length_cons,
          List.length_nil] at h1 h2
        omega
      let reference ← Reference.read (start + 2) inner
      let more ← readTemplate (start + 2 + Utf8.size inner + 1) rest
      let front := if before.isEmpty then [] else [Segment.text (String.ofList before)]
      .ok (front ++ .ref reference :: more)
termination_by s.length

/-- Reads a mapping source. -/
def parseMapping (source : String) : Except ExpressionError Expr :=
  let trimmed := Text.trim source.toList
  if trimmed.isEmpty then .error (.malformed source ⟨0, .emptyExpression⟩)
  else
    match readSource trimmed with
    | .ok e => .ok e
    | .error fault =>
      let error := ExpressionError.malformed (String.ofList trimmed) fault
      if Text.hasMark referenceMark trimmed then
        match readTemplate 0 source.toList with
        | .ok segments => .ok (.template segments)
        | .error _ => .error error
      else .error error

end Expr

end PipelineEngine
