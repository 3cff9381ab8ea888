import PipelineEngine.Text.Case.Mappings
import PipelineEngine.Text.Case.Properties

/-!
# Upper and lower case

Full case conversion of texts: a character may become several, and a capital
sigma becomes a final sigma at the end of a word.  A sigma ends a word when a
cased character stands before it and none after it, case-ignorable characters in
between not counted.
-/

namespace PipelineEngine.Text

namespace Case

/-- The image of a code point under a list of runs. -/
def lookRuns (n : Nat) : List (Nat × Nat × Nat × Int) → Option Nat
  | [] => none
  | (first, last, step, offset) :: rest =>
    if first ≤ n ∧ n ≤ last ∧ (n - first) % step = 0 then some ((n : Int) + offset).toNat
    else lookRuns n rest

/-- Whether a code point lies in one of the ranges. -/
def inRanges (n : Nat) (ranges : List (Nat × Nat)) : Bool :=
  ranges.any fun (first, last) => first ≤ n && n ≤ last

/-- The characters that a character maps to. -/
def mapChar (runs : List (Nat × Nat × Nat × Int)) (special : List (Nat × List Nat)) (c : Char) :
    List Char :=
  match special.lookup c.toNat with
  | some images => images.map Char.ofNat
  | none => [((lookRuns c.toNat runs).map Char.ofNat).getD c]

end Case

/-- The upper case of a character. -/
def upperChar (c : Char) : List Char :=
  if c.toNat < 0x80 then [c.toUpper] else Case.mapChar Case.upperRuns Case.upperSpecial c

/-- The lower case of a character that stands alone. -/
def lowerChar (c : Char) : List Char :=
  if c.toNat < 0x80 then [c.toLower] else Case.mapChar Case.lowerRuns Case.lowerSpecial c

def isIgnorable (c : Char) : Bool := Case.inRanges c.toNat Case.ignorableRanges

def isCased (c : Char) : Bool := Case.inRanges c.toNat Case.casedRanges

/-- Whether the first character that is not case-ignorable is cased. -/
def startsCased (s : List Char) : Bool :=
  ((s.dropWhile isIgnorable).head?).any isCased

/-- Lower case of the text `s` that stands after the reversed text `before`. -/
def lowerAfter : (before s : List Char) → List Char
  | _, [] => []
  | before, c :: rest =>
    let image :=
      if c = 'Σ' then [if startsCased before && !startsCased rest then 'ς' else 'σ']
      else lowerChar c
    image ++ lowerAfter (c :: before) rest

/-- The lower case of a character list. -/
def lower (s : List Char) : List Char := lowerAfter [] s

/-- The upper case of a character list. -/
def upper (s : List Char) : List Char := s.flatMap upperChar

end PipelineEngine.Text

namespace PipelineEngine

/-- A text in lower case. -/
def lowerCase (s : String) : String := String.ofList (Text.lower s.toList)

/-- A text in upper case. -/
def upperCase (s : String) : String := String.ofList (Text.upper s.toList)

end PipelineEngine
