import PipelineEngine.Shape.Node
import PipelineEngine.Yaml.Tree

/-!
# Reading YAML documents

A YAML text as the node of its only document, with every alias replaced by the
node it refers to.  Collections nested too deep and aliases followed too often give
broken nodes, which stand for nothing that can be read.
-/

namespace PipelineEngine.Yaml

namespace Tree

/-- Collections may be nested this deep. -/
def maxDepth : Nat := 128

/-- The node of a tree.  The state counts the aliases that were followed, of which
there may be `limit`. -/
def toNode (slots : List (Nat × Tree)) (limit : Nat) : (fuel depth : Nat) → Tree → StateM Nat Node
  | 0, _, _ => return .broken
  | fuel + 1, depth, t =>
    match t with
    | .scalar s => return .scalar s
    | .anchored _ inner => toNode slots limit fuel depth inner
    | .tagged tag inner => return .tagged tag (← toNode slots limit fuel depth inner)
    | .alias n => do
      modify (· + 1)
      if (← get) > limit then return .broken
      else
        match slots.lookup n with
        | some target => toNode slots limit fuel depth target
        | none => return .broken
    | .seq items =>
      match depth with
      | 0 => return .broken
      | depth + 1 => return .seq (← items.mapM (toNode slots limit fuel depth))
    | .map entries =>
      match depth with
      | 0 => return .broken
      | depth + 1 =>
        return .map (← entries.mapM fun (k, v) => do
          return (← toNode slots limit fuel depth k, ← toNode slots limit fuel depth v))

/-- The node of a document, with its aliases replaced. -/
def resolve (t : Tree) : Node :=
  let limit := t.events * 100
  (toNode (t.slots []) limit (4 * maxDepth + 4) maxDepth t |>.run 0).1

end Tree

/-- The node of a text that holds at most one document. -/
def read? (s : List Char) : Option Node :=
  match Tree.ofText? s with
  | some [] => some .absent
  | some [t] => some t.resolve
  | _ => none

/-- The node of a text given as bytes. -/
def readBytes? (bytes : List UInt8) : Option Node :=
  (Utf8.decode? bytes).bind fun s => read? s.toList

end PipelineEngine.Yaml
