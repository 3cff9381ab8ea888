import PipelineEngine.Text.Numeral

/-!
# Positions in a YAML text

A cursor is the rest of a text together with its position.  Characters that end a
line are those of YAML 1.1; a carriage return and a line feed together are one
line end.
-/

namespace PipelineEngine.Yaml

/-- The rest of a text and its position. -/
structure Cursor where
  rest : List Char
  /-- The number of characters before the rest. -/
  index : Nat
  line : Nat
  column : Nat

def isSpaceOrTab (c : Char) : Bool := c = ' ' || c = '\t'

def isBreak (c : Char) : Bool :=
  c = '\n' || c = '\r' || c.toNat = 0x85 || c.toNat = 0x2028 || c.toNat = 0x2029

/-- A character of the names of anchors, handles and directives. -/
def isWordChar (c : Char) : Bool := c.isAlphanum || c = '_' || c = '-'

/-- A character that a YAML text may hold. -/
def isPrintable (c : Char) : Bool :=
  let n := c.toNat
  n = 9 || n = 10 || n = 13 || (0x20 ≤ n && n ≤ 0x7E) || n = 0x85 ||
    (0xA0 ≤ n && n ≤ 0xD7FF) || (0xE000 ≤ n && n ≤ 0xFFFD) || 0x10000 ≤ n

namespace Cursor

def start (s : List Char) : Cursor := ⟨s, 0, 0, 0⟩

/-- The character at a distance. -/
def at? (c : Cursor) (n : Nat) : Option Char := c.rest[n]?

def head? (c : Cursor) : Option Char := c.rest.head?

/-- Whether the character at a distance satisfies `p`. -/
def sees (c : Cursor) (n : Nat) (p : Char → Bool) : Bool := (c.at? n).any p

/-- Whether a blank, a line end or the end of the text stands at a distance. -/
def endsWord (c : Cursor) (n : Nat) : Bool :=
  match c.at? n with
  | none => true
  | some ch => isSpaceOrTab ch || isBreak ch

/-- Passes one character of the line. -/
def next (c : Cursor) : Cursor :=
  match c.rest with
  | [] => c
  | _ :: rest => ⟨rest, c.index + 1, c.line, c.column + 1⟩

/-- Passes some characters of the line. -/
def skip (c : Cursor) : Nat → Cursor
  | 0 => c
  | n + 1 => c.next.skip n

/-- Passes a line end and gives the characters it stands for. -/
def lineEnd (c : Cursor) : List Char × Cursor :=
  match c.rest with
  | '\r' :: '\n' :: rest => (['\n'], ⟨rest, c.index + 2, c.line + 1, 0⟩)
  | ch :: rest =>
    if ch = '\n' || ch = '\r' || ch.toNat = 0x85 then
      (['\n'], ⟨rest, c.index + 1, c.line + 1, 0⟩)
    else if isBreak ch then ([ch], ⟨rest, c.index + 1, c.line + 1, 0⟩)
    else ([], c)
  | [] => ([], c)

/-- Passes the characters of the line that satisfy `p`. -/
def skipWhile (c : Cursor) (p : Char → Bool) : Cursor :=
  c.skip (c.rest.takeWhile p).length

/-- Whether a marker of a document stands here, alone on its line. -/
def atMarker (c : Cursor) (mark : Char) : Bool :=
  c.column = 0 && c.sees 0 (· = mark) && c.sees 1 (· = mark) && c.sees 2 (· = mark) && c.endsWord 3

/-- Whether a document starts or ends here. -/
def atDocumentMarker (c : Cursor) : Bool := c.atMarker '-' || c.atMarker '.'

/-- Passes the rest of the line, its end left out. -/
def skipLine (c : Cursor) : Cursor := c.skipWhile fun ch => !isBreak ch

end Cursor

end PipelineEngine.Yaml
