import PipelineEngine.Document.Step

/-!
# Hooks and execution plans

Implicit steps run around the explicit steps of every pipeline.  A hook before
the steps defaults to the first step, a hook after them to the last; `each` wraps
every step.  A pipeline without steps still runs its first and last hooks once.
-/

namespace PipelineEngine

/-- Which explicit steps a hook attaches to. -/
inductive HookPosition where
  | first
  | each
  | last
deriving Repr, Inhabited, DecidableEq

/-- The written names of positions. -/
def HookPosition.names : List (String × HookPosition) :=
  [("first", .first), ("each", .each), ("last", .last)]

def HookPosition.name : HookPosition → String
  | .first => "first"
  | .each => "each"
  | .last => "last"

/-- Whether a hook at the position wraps step `index` of `count`. -/
def HookPosition.covers (p : HookPosition) (index count : Nat) : Bool :=
  match p with
  | .first => index = 0
  | .each => true
  | .last => index + 1 = count

/-- An implicit step. -/
structure Hook where
  step : Step
  position : Option HookPosition
deriving Repr, Inhabited, DecidableEq

namespace Hook

/-- Reads a hook: a step with its position beside its fields.  All fields but the
position are read before it is known what they are. -/
def ofNode? (node : Node) : Option Hook := do
  let entries ←
    match node with
    | .map entries => some entries
    | .tagged _ (.map entries) => some entries
    | node => if node.isBlank then some [] else none
  let named ← entries.mapM fun (k, v) => do return (← k.asString, v)
  let positions := named.filter (·.1 = "position")
  let others := named.filter (·.1 ≠ "position")
  let settled ← others.mapM fun (name, v) => do return (Node.string name, ← v.settled)
  let position ←
    match positions with
    | [] => some none
    | [(_, v)] => v.asOptional (Node.asChoice HookPosition.names)
    | _ => none
  let r ← Record.read Step.fieldNames (.map settled)
  return ⟨← Step.ofRecord? r, position⟩

def toValue (h : Hook) : Value :=
  .ofPairs (h.step.pairs ++ [("position", .ofOption (h.position.map fun p => .string p.name))])

end Hook

/-- The hooks around every pipeline. -/
structure Hooks where
  before : List Hook
  after : List Hook
deriving Repr, Inhabited, DecidableEq

/-- An entry of an execution plan. -/
structure PlannedStep where
  step : Step
  /-- Hooks take no position among the outputs. -/
  hook : Bool
deriving Repr, Inhabited, DecidableEq

namespace Hooks

/-- No hooks. -/
def none : Hooks := ⟨[], []⟩

def isEmpty (h : Hooks) : Bool := h.before.isEmpty && h.after.isEmpty

/-- The steps of all hooks, those before first, in declaration order. -/
def steps (h : Hooks) : List Step := (h.before ++ h.after).map (·.step)

/-- The entries for the hooks of a list that wrap step `index` of `count`. -/
def around (hooks : List Hook) (default : HookPosition) (index count : Nat) : List PlannedStep :=
  (hooks.filter fun h => (h.position.getD default).covers index count).map fun h => ⟨h.step, true⟩

/-- The entries of the steps from number `index` on, of `count` in all. -/
def planFrom (h : Hooks) (count : Nat) : Nat → List Step → List PlannedStep
  | _, [] => []
  | index, step :: rest =>
    around h.before .first index count ++ ⟨step, false⟩ ::
      (around h.after .last index count ++ planFrom h count (index + 1) rest)

/-- The steps with the hooks around them. -/
def plan (h : Hooks) (steps : List Step) : List PlannedStep :=
  if steps.isEmpty then
    ((h.before ++ h.after).filter fun hook => hook.position ≠ some .each).map fun hook =>
      ⟨hook.step, true⟩
  else planFrom h steps.length 0 steps

def ofNode? (node : Node) : Option Hooks := do
  let r ← Record.read ["before", "after"] node
  return ⟨← r.defaulted "before" [] (Node.asList Hook.ofNode?),
    ← r.defaulted "after" [] (Node.asList Hook.ofNode?)⟩

def toValue (h : Hooks) : Value :=
  .ofPairs [
    ("before", .array (h.before.map Hook.toValue)),
    ("after", .array (h.after.map Hook.toValue))]

end Hooks

end PipelineEngine
