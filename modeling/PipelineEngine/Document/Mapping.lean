import PipelineEngine.Shape.Record
import PipelineEngine.Text.Blank
import PipelineEngine.Text.Cut

/-!
# Mappings

A binding from a source expression to a destination path.  Without a destination
the last field of the source is the target.
-/

namespace PipelineEngine

/-- A binding from a source to a destination. -/
structure Mapping where
  source : String
  destination : Option String
deriving Repr, Inhabited, DecidableEq

namespace Mapping

/-- The text without every leading occurrence of the mark that opens a
reference. -/
private def dropOpening : List Char → List Char
  | '$' :: '\x7b' :: rest => dropOpening rest
  | s => s

/-- The text without the closing braces at its end. -/
private def dropClosing (s : List Char) : List Char :=
  (s.reverse.dropWhile (· = '\x7d')).reverse

/-- The path at which the mapped value is written: the destination, or else what
stands in the source after the last dot and before the next bracket. -/
def target (m : Mapping) : String :=
  match m.destination with
  | some path => path
  | none =>
    let inner := dropClosing (dropOpening (Text.trim m.source.toList))
    let last :=
      match Text.cutLast? '.' inner with
      | some (_, after) => after
      | none => inner
    String.ofList (last.takeWhile (· ≠ '['))

private theorem dropClosing_append {s : List Char} (h : '\x7d' ∉ s) :
    dropClosing (s ++ ['\x7d']) = s := by
  have hkeep : s.reverse.dropWhile (· = '\x7d') = s.reverse := by
    cases hs : s.reverse with
    | nil => rfl
    | cons c rest =>
      have hc : c ∈ s := by
        rw [← List.mem_reverse, hs]
        exact List.mem_cons_self
      exact List.dropWhile_cons_of_neg fun heq => h (of_decide_eq_true heq ▸ hc)
  rw [dropClosing, List.reverse_append, List.reverse_singleton, List.singleton_append,
    List.dropWhile_cons_of_pos rfl, hkeep, List.reverse_reverse]

/-- The target of a source that is one pair of braces: what stands there behind the last dot,
up to the next bracket. -/
theorem target_of_braces {m : Mapping} {inner last : List Char}
    (hdestination : m.destination = none)
    (hsource : Text.trim m.source.toList = '$' :: '\x7b' :: (inner ++ ['\x7d']))
    (hopening : '$' ∉ inner.head?) (hclosing : '\x7d' ∉ inner)
    (hlast : inner = last ∨ ∃ before, inner = before ++ '.' :: last) (hdot : '.' ∉ last) :
    m.target = String.ofList (last.takeWhile (· ≠ '[')) := by
  have hinner : dropClosing (dropOpening (Text.trim m.source.toList)) = inner := by
    have hstop : dropOpening (inner ++ ['\x7d']) = inner ++ ['\x7d'] := by
      cases inner with
      | nil => rfl
      | cons c rest =>
        rw [List.cons_append, dropOpening]
        intro more heq
        exact hopening (congrArg some (List.cons.inj heq).1)
    rw [hsource, dropOpening, hstop, dropClosing_append hclosing]
  rw [target, hdestination]
  simp only [hinner]
  rcases hlast with rfl | ⟨before, rfl⟩
  · rw [Text.cutLast?_eq_none hdot]
  · rw [Text.cutLast?_append_cons hdot]

def ofNode? (node : Node) : Option Mapping := do
  let r ← Record.read ["from", "to"] node
  return ⟨← r.required "from" Node.asString, ← r.optional "to" Node.asString⟩

def toValue (m : Mapping) : Value :=
  .ofPairs [("from", .string m.source), ("to", .ofOption (m.destination.map .string))]

end Mapping

end PipelineEngine
