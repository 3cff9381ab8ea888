import PipelineEngine.Yaml.Cursor

/-!
# The text of YAML scalars

How the four styles write their text: plain and quoted scalars fold line ends into
spaces, block scalars keep or fold them and chop what is left at the end.  Each
reader gives the text and where it ends.

The line ends met inside a scalar are held as a first one and the further ones:
a single line feed folds into a space, and more than one stand for all but the
first.
-/

namespace PipelineEngine.Yaml

/-- Blanks and line ends that have been passed but not yet written. -/
structure Gap where
  blanks : List Char
  firstBreak : List Char
  moreBreaks : List Char
  /-- A line end has been passed. -/
  broken : Bool

namespace Gap

def empty : Gap := ⟨[], [], [], false⟩

/-- What the gap stands for when it is folded. -/
def folded (g : Gap) : List Char :=
  if g.broken then
    match g.firstBreak with
    | '\n' :: _ => if g.moreBreaks.isEmpty then [' '] else g.moreBreaks
    | first => first ++ g.moreBreaks
  else g.blanks

/-- The gap after one more line end. -/
def addBreak (g : Gap) (chars : List Char) : Gap :=
  if g.broken then { g with moreBreaks := g.moreBreaks ++ chars }
  else ⟨[], chars, g.moreBreaks, true⟩

/-- Passes blanks and line ends.  In a plain scalar a tab may not stand where
indentation is expected, before column `indent`. -/
def pass (indent : Nat) : Nat → Gap → Cursor → Option (Gap × Cursor)
  | 0, _, _ => none
  | fuel + 1, g, c =>
    match c.head? with
    | none => some (g, c)
    | some ch =>
      if isSpaceOrTab ch then
        if g.broken && decide (c.column < indent) && ch = '\t' then none
        else if g.broken then pass indent fuel g c.next
        else pass indent fuel { g with blanks := g.blanks ++ [ch] } c.next
      else if isBreak ch then
        let (chars, c) := c.lineEnd
        pass indent fuel (g.addBreak chars) c
      else some (g, c)

end Gap

/-! ## Quoted scalars -/

/-- The character of a one-letter escape. -/
def escapeChar? (c : Char) : Option Char :=
  match c with
  | '0' => some (Char.ofNat 0)
  | 'a' => some (Char.ofNat 7)
  | 'b' => some (Char.ofNat 8)
  | 't' => some '\t'
  | '\t' => some '\t'
  | 'n' => some '\n'
  | 'v' => some (Char.ofNat 11)
  | 'f' => some (Char.ofNat 12)
  | 'r' => some '\r'
  | 'e' => some (Char.ofNat 27)
  | ' ' => some ' '
  | '"' => some '"'
  | '/' => some '/'
  | '\\' => some '\\'
  | 'N' => some (Char.ofNat 0x85)
  | '_' => some (Char.ofNat 0xA0)
  | 'L' => some (Char.ofNat 0x2028)
  | 'P' => some (Char.ofNat 0x2029)
  | _ => none

/-- The number of hexadecimal digits after an escape letter. -/
def escapeWidth? (c : Char) : Option Nat :=
  match c with
  | 'x' => some 2
  | 'u' => some 4
  | 'U' => some 8
  | _ => none

/-- Reads an escape whose backslash is at the cursor. -/
def readEscape (c : Cursor) : Option (Char × Cursor) := do
  let letter ← c.at? 1
  match escapeChar? letter with
  | some ch => some (ch, c.skip 2)
  | none =>
    let width ← escapeWidth? letter
    let digits := (c.rest.drop 2).take width
    if digits.length < width then none
    else
      let n ← Numeral.digits? 16 digits
      if (0xD800 ≤ n ∧ n ≤ 0xDFFF) ∨ n > 0x10FFFF then none
      else some (Char.ofNat n, c.skip (2 + width))

/-- Reads the characters of a quoted scalar up to a blank, a line end or the
closing quote; the last part tells of an escaped line end. -/
def readQuotedRun (single : Bool) : Nat → List Char → Cursor → Option (List Char × Cursor × Bool)
  | 0, _, _ => none
  | fuel + 1, acc, c =>
    match c.head? with
    | none => none
    | some ch =>
      if isSpaceOrTab ch || isBreak ch then some (acc, c, false)
      else if single && ch = '\'' && c.sees 1 (· = '\'') then
        readQuotedRun single fuel ('\'' :: acc) (c.skip 2)
      else if (single && ch = '\'') || (!single && ch = '"') then some (acc, c, false)
      else if !single && ch = '\\' && c.sees 1 isBreak then some (acc, c.next.lineEnd.2, true)
      else if !single && ch = '\\' then
        match readEscape c with
        | some (e, c) => readQuotedRun single fuel (e :: acc) c
        | none => none
      else readQuotedRun single fuel (ch :: acc) c.next

/-- Reads a quoted scalar after its opening quote; `acc` is the reversed text so
far. -/
def readQuoted (single : Bool) : Nat → List Char → Cursor → Option (List Char × Cursor)
  | 0, _, _ => none
  | fuel + 1, acc, c => do
    if c.atDocumentMarker then none
    else
      let (acc, c, escaped) ← readQuotedRun single (c.rest.length + 1) acc c
      let quote := if single then '\'' else '"'
      if !escaped && c.sees 0 (· = quote) then some (acc.reverse, c.next)
      else
        let (g, c) ← Gap.pass 0 (c.rest.length + 1) { Gap.empty with broken := escaped } c
        readQuoted single fuel (g.folded.reverse ++ acc) c

/-! ## Plain scalars -/

/-- Whether a plain scalar ends before the character at the cursor. -/
def endsPlain (flow : Bool) (c : Cursor) : Bool :=
  (c.sees 0 (· = ':') && c.endsWord 1) ||
    (flow && c.sees 0 fun ch => ch = ',' || ch = '[' || ch = ']' || ch = '\x7b' || ch = '\x7d')

/-- Reads the characters of a plain scalar up to a blank or an indicator. -/
def readPlainRun (flow : Bool) : Nat → List Char → Cursor → Option (List Char × Cursor)
  | 0, _, _ => none
  | fuel + 1, acc, c =>
    if c.endsWord 0 || endsPlain flow c then some (acc, c)
    else if flow && c.sees 0 (· = ':') && c.sees 1 (fun ch =>
        ch = ',' || ch = '?' || ch = '[' || ch = ']' || ch = '\x7b' || ch = '\x7d') then none
    else
      match c.head? with
      | some ch => readPlainRun flow fuel (ch :: acc) c.next
      | none => some (acc, c)

/-- Reads a plain scalar; the gap is what has been passed since the last
character. The last part tells whether a line end was passed at the end. -/
def readPlain (flow : Bool) (indent : Nat) :
    Nat → List Char → Gap → Cursor → Option (List Char × Cursor × Bool)
  | 0, _, _, _ => none
  | fuel + 1, acc, g, c => do
    if c.atDocumentMarker || c.sees 0 (· = '#') then some (acc.reverse, c, g.broken)
    else
      let (run, c) ← readPlainRun flow (c.rest.length + 1) [] c
      let (acc, g) := if run.isEmpty then (acc, g) else (run ++ (g.folded.reverse ++ acc), Gap.empty)
      if !(c.sees 0 fun ch => isSpaceOrTab ch || isBreak ch) then some (acc.reverse, c, g.broken)
      else
        let (g, c) ← Gap.pass indent (c.rest.length + 1) g c
        if !flow && decide (c.column < indent) then some (acc.reverse, c, g.broken)
        else readPlain flow indent fuel acc g c

/-! ## Block scalars -/

/-- What becomes of the line ends at the end of a block scalar. -/
inductive Chomping where
  | strip
  | clip
  | keep
deriving DecidableEq

/-- Reads the indicators after the mark of a block scalar: how the end is chopped
and how much deeper the text is indented, none for what the text shows. -/
def readBlockHeader (c : Cursor) : Option (Chomping × Nat × Cursor) :=
  let chomping? (c : Cursor) : Option Chomping :=
    if c.sees 0 (· = '+') then some .keep else if c.sees 0 (· = '-') then some .strip else none
  let digit? (c : Cursor) : Option Nat := c.head?.bind (Numeral.digit? 10)
  match chomping? c with
  | some chomping =>
    match digit? c.next with
    | some 0 => none
    | some n => some (chomping, n, c.skip 2)
    | none => some (chomping, 0, c.next)
  | none =>
    match digit? c with
    | some 0 => none
    | some n =>
      match chomping? c.next with
      | some chomping => some (chomping, n, c.skip 2)
      | none => some (.clip, n, c.next)
    | none => some (.clip, 0, c)

/-- Passes the indentation and the empty lines before a line of a block scalar.
An indentation of zero is not yet known; `widest` is the deepest column seen. -/
def passIndentation (indent : Nat) :
    Nat → Nat → List Char → Cursor → Option (Nat × List Char × Cursor)
  | 0, _, _, _ => none
  | fuel + 1, widest, breaks, c =>
    let spaces := (c.rest.takeWhile (· = ' ')).length
    let c := c.skip (if indent = 0 then spaces else min spaces (indent - c.column))
    let widest := max widest c.column
    if (indent = 0 || decide (c.column < indent)) && c.sees 0 (· = '\t') then none
    else if c.sees 0 isBreak then
      let (chars, c) := c.lineEnd
      passIndentation indent fuel widest (breaks ++ chars) c
    else some (widest, breaks, c)

/-- Reads the lines of a block scalar.  `first` is the end of the line before,
`more` the empty lines after it. -/
def readBlockLines (literal : Bool) (indent : Nat) :
    Nat → (acc first more : List Char) → (leadingBlank : Bool) → Cursor →
      Option (List Char × List Char × List Char × Cursor)
  | 0, _, _, _, _, _ => none
  | fuel + 1, acc, first, more, leadingBlank, c => do
    if c.column = indent && !c.rest.isEmpty then
      let blank := c.sees 0 isSpaceOrTab
      let joint :=
        if !literal && first.head? == some '\n' && !leadingBlank && !blank then
          if more.isEmpty then [' '] else []
        else first
      let line := c.rest.takeWhile fun ch => !isBreak ch
      let (ending, c) := c.skipLine.lineEnd
      let (_, breaks, c) ← passIndentation indent (c.rest.length + 1) 0 [] c
      readBlockLines literal indent fuel (line.reverse ++ more.reverse ++ joint.reverse ++ acc)
        ending breaks blank c
    else some (acc, first, more, c)

/-- Reads a block scalar whose mark is at the cursor.  `parent` is the indentation
of the block around it, none at the top. -/
def readBlock (literal : Bool) (parent : Option Nat) (c : Cursor) : Option (List Char × Cursor) := do
  let (chomping, increment, c) ← readBlockHeader c.next
  let c := c.skipWhile isSpaceOrTab
  let c := if c.sees 0 (· = '#') then c.skipLine else c
  if !(c.rest.isEmpty || c.sees 0 isBreak) then none
  else
    let c := c.lineEnd.2
    let given := if increment = 0 then 0 else parent.getD 0 + increment
    let (widest, breaks, c) ← passIndentation given (c.rest.length + 1) 0 [] c
    let least := match parent with
      | some n => n + 1
      | none => 1
    let indent := if given = 0 then max widest (max least 1) else given
    let (acc, first, more, c) ←
      readBlockLines literal indent (c.rest.length + 1) [] [] breaks false c
    let ending :=
      match chomping with
      | .strip => []
      | .clip => first
      | .keep => first ++ more
    some (acc.reverse ++ ending, c)

end PipelineEngine.Yaml
