import PipelineEngine.Expression.Syntax
import PipelineEngine.Run.Context
import PipelineEngine.Value.Compare

/-!
# Evaluating expressions

The value of an expression in a context.  Evaluation depends on the context only
through its references and fails only where one of them has no value.
-/

namespace PipelineEngine

namespace Value

/-- The kind of a value, as messages name it. -/
def kindName : Value → String
  | .null => "null"
  | .bool _ => "a boolean"
  | .number _ => "a number"
  | .string _ => "a string"
  | .array _ => "an array"
  | .object _ => "an object"

/-- Follows a path into a value; the error says where it leads nowhere. -/
def walk : List PathSegment → Value → Except String Value
  | [], v => .ok v
  | .field name :: rest, .object fields =>
    match Fields.get? fields name with
    | some v => walk rest v
    | none => .error ("field '" ++ name ++ "' not found")
  | .index i :: rest, .array items =>
    match items[i]? with
    | some v => walk rest v
    | none =>
      .error ("index " ++ Numeral.decimal i ++ " out of bounds (length " ++
        Numeral.decimal items.length ++ ")")
  | segment :: _, v => .error ("cannot apply '" ++ segment.text ++ "' to " ++ v.kindName)

/-- The text of a value inside a template: a string as it is, nothing for null,
compact JSON for the rest. -/
def templateText : Value → String
  | .string s => s
  | .null => ""
  | v => v.print

end Value

namespace OutcomeView

/-- Follows a path into an outcome.  `success` is the outcome's flag unless the
body has a field of that name. -/
def walk (o : OutcomeView) : List PathSegment → Except String Value
  | .field "success" :: rest =>
    match o.body.field? "success" with
    | some _ => o.body.walk (.field "success" :: rest)
    | none => (Value.bool o.success).walk rest
  | path => o.body.walk path

end OutcomeView

namespace Reference

/-- The value of a reference, or the reason why it has none. -/
def find (r : Reference) (ctx : Context) : Except String Value :=
  match r.root with
  | .args => ctx.args.walk r.path
  | .env =>
    match r.path with
    | [] => .ok (.object (ctx.env.map fun (k, v) => (k, .string v)))
    | .field name :: rest =>
      match ctx.env.get? name with
      | some v => (Value.string v).walk rest
      | none => .error ("no env var named '" ++ name ++ "'")
    | .index _ :: _ => .error "env vars are addressed by name"
  | .pipeline position =>
    match ctx.outputAt? position with
    | some output => output.value.walk r.path
    | none => .error ("no step has run at position " ++ Numeral.decimal position)
  | .outcome =>
    match ctx.outcome with
    | some o => o.walk r.path
    | none => .error "no outcome in this context"
  | .named name =>
    match ctx.output? name with
    | some output => output.value.walk r.path
    | none =>
      match ctx.outcome with
      | some o => o.walk (.field name :: r.path)
      | none => .error ("no prior step named '" ++ name ++ "'")

/-- The value of a reference in a context. -/
def resolve (r : Reference) (ctx : Context) : Except UnresolvedReference Value :=
  (r.find ctx).mapError fun reason => ⟨r.raw, reason⟩

end Reference

/-- The text of a template segment in a context. -/
def Segment.render (ctx : Context) : Segment → Except UnresolvedReference String
  | .text s => .ok s
  | .ref r => (r.resolve ctx).map Value.templateText

namespace Expr

/-- The value of an expression in a context.  `and` and `or` leave out their right
side when the left one decides. -/
def evaluate (ctx : Context) : Expr → Except UnresolvedReference Value
  | .literal v => .ok v
  | .ref r => r.resolve ctx
  | .template segments =>
    (segments.mapM (Segment.render ctx)).map fun texts => .string (String.join texts)
  | .not inner => (inner.evaluate ctx).map fun v => .bool (!v.truthy)
  | .eq left right => do
    let l ← left.evaluate ctx
    let r ← right.evaluate ctx
    return .bool (l.equal r)
  | .ne left right => do
    let l ← left.evaluate ctx
    let r ← right.evaluate ctx
    return .bool (!l.equal r)
  | .and left right => do
    let l ← left.evaluate ctx
    if l.truthy then return .bool (← right.evaluate ctx).truthy
    else return .bool false
  | .or left right => do
    let l ← left.evaluate ctx
    if l.truthy then return .bool true
    else return .bool (← right.evaluate ctx).truthy

/-- Whether an expression holds in a context. -/
def test (e : Expr) (ctx : Context) : Except UnresolvedReference Bool :=
  (e.evaluate ctx).map Value.truthy

end Expr

end PipelineEngine
