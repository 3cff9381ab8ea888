/-!
# Blank characters

The characters that trimming removes are those with the Unicode property
`White_Space`.  The two trims below work on character lists and leave every
inner blank alone.
-/

namespace PipelineEngine.Text

/-- The Unicode property `White_Space`. -/
def isBlank (c : Char) : Bool :=
  let n := c.toNat
  (9 ≤ n && n ≤ 13) || n == 0x20 || n == 0x85 || n == 0xA0 || n == 0x1680 ||
    (0x2000 ≤ n && n ≤ 0x200A) || n == 0x2028 || n == 0x2029 || n == 0x202F ||
    n == 0x205F || n == 0x3000

/-- The list without its leading blanks. -/
def trimStart (s : List Char) : List Char :=
  s.dropWhile isBlank

/-- The list without its trailing blanks. -/
def trimEnd (s : List Char) : List Char :=
  (s.reverse.dropWhile isBlank).reverse

/-- The list without the blanks at its two ends. -/
def trim (s : List Char) : List Char :=
  trimEnd (trimStart s)

@[simp] theorem trim_nil : trim [] = [] := rfl

end PipelineEngine.Text

namespace PipelineEngine

/-- A text without the blanks at its two ends. -/
def trimBlanks (s : String) : String :=
  String.ofList (Text.trim s.toList)

end PipelineEngine
