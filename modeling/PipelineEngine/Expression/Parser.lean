import PipelineEngine.Expression.Token

/-!
# Parsing expressions

Recursive descent over tokens.  `or` binds weakest, then `and`, then the two
comparisons, then `not`.  `and` and `or` group to the left; comparisons do not
chain.  Each reader gives the tokens left over together with the fact that some
were taken, which is what the recursion descends on.
-/

namespace PipelineEngine

namespace Expr

/-- What is left of `ts` after reading something from its front. -/
abbrev Rest (ts : List Lexeme) := { r : List Lexeme // r.length < ts.length }

/-- What a reader of the front of `ts` answers. -/
abbrev Reading (α : Type) (ts : List Lexeme) := Except SyntaxFault (α × Rest ts)

/-- The number of bytes before the first of the tokens, the size of the source
when there is none. -/
def offsetOf (size : Nat) : List Lexeme → Nat
  | [] => size
  | t :: _ => t.offset

variable (size : Nat)

mutual

/-- Reads `and (or and)*`. -/
def readOr (ts : List Lexeme) : Reading Expr ts := do
  let (left, ⟨r, hr⟩) ← readAnd ts
  let (e, ⟨q, hq⟩) ← readOrTail left r
  return (e, ⟨q, by omega⟩)
termination_by (ts.length, 5)

/-- Reads `(or and)*` after the expression `left`. -/
def readOrTail (left : Expr) (ts : List Lexeme) :
    Except SyntaxFault (Expr × { r : List Lexeme // r.length ≤ ts.length }) :=
  match ts with
  | ⟨.or, _⟩ :: rest => do
    let (right, ⟨r, hr⟩) ← readAnd rest
    let (e, ⟨q, hq⟩) ← readOrTail (.or left right) r
    return (e, ⟨q, by simp only [List.length_cons]; omega⟩)
  | ts => .ok (left, ⟨ts, Nat.le_refl _⟩)
termination_by (ts.length, 6)

/-- Reads `eq (and eq)*`. -/
def readAnd (ts : List Lexeme) : Reading Expr ts := do
  let (left, ⟨r, hr⟩) ← readComparison ts
  let (e, ⟨q, hq⟩) ← readAndTail left r
  return (e, ⟨q, by omega⟩)
termination_by (ts.length, 3)

/-- Reads `(and eq)*` after the expression `left`. -/
def readAndTail (left : Expr) (ts : List Lexeme) :
    Except SyntaxFault (Expr × { r : List Lexeme // r.length ≤ ts.length }) :=
  match ts with
  | ⟨.and, _⟩ :: rest => do
    let (right, ⟨r, hr⟩) ← readComparison rest
    let (e, ⟨q, hq⟩) ← readAndTail (.and left right) r
    return (e, ⟨q, by simp only [List.length_cons]; omega⟩)
  | ts => .ok (left, ⟨ts, Nat.le_refl _⟩)
termination_by (ts.length, 4)

/-- Reads `unary (("==" | "!=") unary)?`. -/
def readComparison (ts : List Lexeme) : Reading Expr ts := do
  let (left, ⟨r, hr⟩) ← readUnary ts
  match r, hr with
  | ⟨.eqEq, _⟩ :: rest, hr =>
    have hrest : rest.length < ts.length := by simp at hr; omega
    let (right, ⟨q, hq⟩) ← readUnary rest
    return (.eq left right, ⟨q, by omega⟩)
  | ⟨.notEq, _⟩ :: rest, hr =>
    have hrest : rest.length < ts.length := by simp at hr; omega
    let (right, ⟨q, hq⟩) ← readUnary rest
    return (.ne left right, ⟨q, by omega⟩)
  | r, hr => return (left, ⟨r, hr⟩)
termination_by (ts.length, 2)

/-- Reads `not unary | primary`. -/
def readUnary (ts : List Lexeme) : Reading Expr ts :=
  match ts with
  | ⟨.not, _⟩ :: rest => do
    let (e, ⟨r, hr⟩) ← readUnary rest
    return (.not e, ⟨r, by simp only [List.length_cons]; omega⟩)
  | ts => readPrimary ts
termination_by (ts.length, 1)

/-- Reads a parenthesised expression, a literal or a reference. -/
def readPrimary (ts : List Lexeme) : Reading Expr ts :=
  match ts with
  | [] => .error ⟨size, .unexpectedEnd⟩
  | ⟨.leftParen, _⟩ :: rest => do
    let (e, ⟨r, hr⟩) ← readOr rest
    match r, hr with
    | ⟨.rightParen, _⟩ :: q, hr =>
      return (e, ⟨q, by simp only [List.length_cons] at hr ⊢; omega⟩)
    | r, _ => .error ⟨offsetOf size r, .expectedClosingParenthesis⟩
  | ⟨.ref reference, _⟩ :: rest => .ok (.ref reference, ⟨rest, by simp⟩)
  | ⟨.literal v, _⟩ :: rest => .ok (.literal v, ⟨rest, by simp⟩)
  | ⟨_, offset⟩ :: _ => .error ⟨offset, .expectedValue⟩
termination_by (ts.length, 0)

end

/-- The expression of all the tokens of a source of `size` bytes. -/
def ofTokens (size : Nat) (ts : List Lexeme) : Except SyntaxFault Expr :=
  if ts.isEmpty then .error ⟨0, .emptyExpression⟩
  else do
    let (e, ⟨r, _⟩) ← readOr size ts
    match r with
    | [] => return e
    | t :: _ => .error ⟨t.offset, .unexpectedToken⟩

/-- The expression of a source, or the first fault in it. -/
def readSource (source : List Char) : Except SyntaxFault Expr := do
  ofTokens (Utf8.size source) (← Token.scan source)

/-- Reads a condition. -/
def parseCondition (source : String) : Except ExpressionError Expr :=
  (readSource source.toList).mapError (.malformed source)

end Expr

end PipelineEngine
