import PipelineEngine.Expression.Syntax
import PipelineEngine.Text.Blank
import PipelineEngine.Text.Utf8
import PipelineEngine.Word

/-!
# Reading references

The path of a reference: a root, then fields and indices without blanks between
them.  Names consist of ASCII letters, digits, underscores and hyphens, so one
character is one byte wherever a fault is counted past the leading blanks.
-/

namespace PipelineEngine

/-- A character of a name. -/
def isNameChar (c : Char) : Bool := c.isAlphanum || c = '_' || c = '-'

namespace Reference

/-- What a reader of a reference answers. -/
abbrev Reading (α : Type) := Except SyntaxFault α

theorem length_dropWhile_lt {p : Char → Bool} {s : List Char}
    (h : ¬(s.takeWhile p).isEmpty) : (s.dropWhile p).length < s.length := by
  have hl : (s.takeWhile p).length + (s.dropWhile p).length = s.length := by
    rw [← List.length_append, List.takeWhile_append_dropWhile]
  have : 0 < (s.takeWhile p).length := by
    cases hs : s.takeWhile p with
    | nil => simp [hs] at h
    | cons => simp
  omega

/-- Reads an index after its opening bracket, which stands just before
`offset`; the rest follows the closing bracket. -/
def readIndex (offset : Nat) (s : List Char) :
    Reading (Nat × Nat × { r : List Char // r.length < s.length }) :=
  let digits := s.takeWhile Numeral.isDigit
  if hd : digits.isEmpty then .error ⟨offset, .expectedIndex⟩
  else
    match hr : s.dropWhile Numeral.isDigit with
    | ']' :: rest =>
      match Numeral.digits? 10 digits with
      | some n =>
        if n < Word.bound 64 then
          .ok (n, offset + digits.length + 1,
            ⟨rest, by have := length_dropWhile_lt hd; rw [hr] at this; simp at this; omega⟩)
        else .error ⟨offset, .indexOutOfRange⟩
      | none => .error ⟨offset, .indexOutOfRange⟩
    | _ => .error ⟨offset + digits.length, .expectedClosingBracket⟩

/-- Reads the fields and indices after a root. -/
def readSegments (offset : Nat) (s : List Char) : Reading (List PathSegment) :=
  match s with
  | [] => .ok []
  | '.' :: rest =>
    let name := rest.takeWhile isNameChar
    if _h : name.isEmpty then .error ⟨offset + 1, .expectedField⟩
    else do
      let more ← readSegments (offset + 1 + name.length) (rest.dropWhile isNameChar)
      .ok (.field (String.ofList name) :: more)
  | '[' :: rest => do
    let (n, next, ⟨r, _⟩) ← readIndex (offset + 1) rest
    let more ← readSegments next r
    .ok (.index n :: more)
  | _ => .error ⟨offset, .unexpectedInReference⟩
termination_by s.length
decreasing_by
  · have := length_dropWhile_lt (p := isNameChar) _h
    simp only [List.length_cons]; omega
  · simp only [List.length_cons]; omega

/-- Reads a reference from the text between its braces; `offset` counts the bytes
of the source before that text. -/
def read (offset : Nat) (text : List Char) : Reading Reference := do
  let base := offset + Utf8.size (text.takeWhile Text.isBlank)
  let inner := Text.trim text
  let name := inner.takeWhile isNameChar
  let rest := inner.dropWhile isNameChar
  if name.isEmpty then .error ⟨base, .expectedReference⟩
  let raw := String.ofList inner
  let after := base + name.length
  match String.ofList name with
  | "args" => return ⟨raw, .args, ← readSegments after rest⟩
  | "env" => return ⟨raw, .env, ← readSegments after rest⟩
  | "outcome" => return ⟨raw, .outcome, ← readSegments after rest⟩
  | "pipeline" =>
    match rest with
    | '[' :: rest =>
      let (n, next, ⟨r, _⟩) ← readIndex (after + 1) rest
      return ⟨raw, .pipeline n, ← readSegments next r⟩
    | _ => .error ⟨after, .pipelineNeedsIndex⟩
  | other => return ⟨raw, .named other, ← readSegments after rest⟩

end Reference

end PipelineEngine
