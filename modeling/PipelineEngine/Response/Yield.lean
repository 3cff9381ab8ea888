import PipelineEngine.Text.Blank
import PipelineEngine.Text.Cut
import PipelineEngine.Text.Numeral
import PipelineEngine.Value.Basic
import PipelineEngine.Word

/-!
# Yields

The selection of one item or of a range of a sequence, written `N`, `N..`, `..N` or
`N..M`.  Ranges are half open.  A value that is no array counts as one item, null
as none.
-/

namespace PipelineEngine

/-- A selection from a sequence. -/
inductive Yield where
  /-- One item, unwrapped. -/
  | index (n : Nat)
  /-- From an index to the end. -/
  | onward (n : Nat)
  /-- Up to an index, which is left out. -/
  | until (n : Nat)
  /-- From one index up to another, which is left out. -/
  | range (start stop : Nat)
deriving Repr, Inhabited, DecidableEq

inductive YieldReason where
  | notANumber
  | noBound
  | reversed
deriving Repr, DecidableEq

def YieldReason.message : YieldReason → String
  | .notANumber => "bounds must be non-negative integers"
  | .noBound => "at least one bound is required"
  | .reversed => "upper bound is below lower bound"

/-- Why a text is no yield. -/
structure YieldError where
  spec : String
  reason : YieldReason
deriving Repr, DecidableEq

def YieldError.message (e : YieldError) : String :=
  "Invalid yield '" ++ e.spec ++ "': " ++ e.reason.message

namespace Yield

/-- A bound with blanks around it. -/
def bound (s : List Char) : Except YieldReason Nat :=
  match (Numeral.natural? 10 (Text.trim s)).filter (· < Word.bound 64) with
  | some n => .ok n
  | none => .error .notANumber

/-- Reads a yield without blanks at its ends. -/
def read (s : List Char) : Except YieldReason Yield :=
  match Text.cut? ['.', '.'] s with
  | none => (bound s).map .index
  | some ([], []) => .error .noBound
  | some ([], stop) => (bound stop).map .until
  | some (start, []) => (bound start).map .onward
  | some (start, stop) => do
    let a ← bound start
    let b ← bound stop
    if b < a then .error .reversed else .ok (.range a b)

/-- Reads a yield. -/
def parse (spec : String) : Except YieldError Yield :=
  (read (Text.trim spec.toList)).mapError fun reason => ⟨spec, reason⟩

/-- The items of a value. -/
def items : Value → List Value
  | .array items => items
  | .null => []
  | other => [other]

/-- Selects from a value. An index out of range gives null. -/
def apply (y : Yield) (v : Value) : Value :=
  match y with
  | .index n => (items v)[n]?.getD .null
  | .onward n => .array ((items v).drop n)
  | .until n => .array ((items v).take n)
  | .range a b => .array (((items v).drop a).take (b - a))

end Yield

end PipelineEngine
