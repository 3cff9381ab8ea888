import PipelineEngine.Yaml.Scalar
import PipelineEngine.Yaml.Text
import PipelineEngine.Text.Utf8

/-!
# Tokens of YAML

A YAML text as tokens.  Indentation becomes the tokens that open and close block
collections.  A node that may turn out to be a key is remembered until its line
ends; when a colon follows it, the key token is put before it.
-/

namespace PipelineEngine.Yaml

/-- A token. -/
inductive Token where
  | versionDirective (major minor : Nat)
  | tagDirective (handle uri : String)
  | documentStart
  | documentEnd
  | blockSequenceStart
  | blockMappingStart
  | blockEnd
  | flowSequenceStart
  | flowSequenceEnd
  | flowMappingStart
  | flowMappingEnd
  | flowEntry
  | blockEntry
  | key
  | value
  | anchor (name : String)
  | alias (name : String)
  | tag (handle suffix : String)
  | scalar (text : String) (style : Style)
deriving Repr, Inhabited, DecidableEq

namespace Token

/-- A place where a key may start. -/
structure KeyCandidate where
  /-- The number of tokens before it. -/
  position : Nat
  index : Nat
  line : Nat
  column : Nat
  /-- In its place nothing but a key can stand. -/
  required : Bool

/-- What has been read of a text. -/
structure Progress where
  cursor : Cursor
  tokens : Array Token
  /-- The column of the innermost block collection, none at the top. -/
  indent : Option Nat
  outerIndents : List (Option Nat)
  /-- The candidates of the open flow collections, the innermost first, and the
  block level last. -/
  candidates : List (Option KeyCandidate)
  keyAllowed : Bool

namespace Progress

def flow (p : Progress) : Bool := p.candidates.length > 1

def push (p : Progress) (t : Token) : Progress := { p with tokens := p.tokens.push t }

/-- Drops the innermost candidate, which must not be a required key. -/
def dropCandidate (p : Progress) : Option Progress :=
  match p.candidates with
  | some k :: rest => if k.required then none else some { p with candidates := none :: rest }
  | _ => some p

/-- Drops the candidates that are on an earlier line or too far back. -/
def dropStale (p : Progress) : Option Progress := do
  let candidates ← p.candidates.mapM fun candidate =>
    match candidate with
    | some k =>
      if k.line < p.cursor.line || k.index + 1024 < p.cursor.index then
        if k.required then none else some none
      else some (some k)
    | none => some none
  return { p with candidates }

/-- Remembers that a key may start at the cursor. -/
def noteCandidate (p : Progress) : Option Progress :=
  if p.keyAllowed then do
    let required := !p.flow && p.indent == some p.cursor.column
    let p ← p.dropCandidate
    let k : KeyCandidate :=
      ⟨p.tokens.size, p.cursor.index, p.cursor.line, p.cursor.column, required⟩
    return { p with candidates := some k :: p.candidates.drop 1 }
  else some p

/-- Opens a block collection at a column deeper than the current one; its token
is put before the token of the given number. -/
def openBlock (p : Progress) (column position : Nat) (t : Token) : Progress :=
  if p.flow then p
  else
    let deeper :=
      match p.indent with
      | none => true
      | some n => n < column
    if deeper then
      { p with
        indent := some column
        outerIndents := p.indent :: p.outerIndents
        tokens := p.tokens.insertIdxIfInBounds position t }
    else p

/-- Closes the block collections deeper than a column, all of them for none. -/
def closeBlocks (column : Option Nat) : Nat → Progress → Progress
  | 0, p => p
  | fuel + 1, p =>
    if p.flow then p
    else
      match p.indent with
      | none => p
      | some n =>
        let deeper :=
          match column with
          | none => true
          | some c => c < n
        if deeper then
          closeBlocks column fuel
            { p.push .blockEnd with
              indent := p.outerIndents.head?.getD none
              outerIndents := p.outerIndents.drop 1 }
        else p

/-- Closes the block collections that the cursor has left. -/
def close (p : Progress) (column : Option Nat) : Progress :=
  closeBlocks column (p.outerIndents.length + 1) p

/-- Passes blanks, comments and line ends.  A tab may stand only where no key can
start. -/
def toNext : Nat → Progress → Progress
  | 0, p => p
  | fuel + 1, p =>
    let c := p.cursor
    let c := if c.column = 0 && c.sees 0 (·.toNat = 0xFEFF) then c.next else c
    let c := c.skipWhile fun ch => ch = ' ' || ((p.flow || !p.keyAllowed) && ch = '\t')
    let c := if c.sees 0 (· = '#') then c.skipLine else c
    if c.sees 0 isBreak then
      toNext fuel { p with cursor := c.lineEnd.2, keyAllowed := p.keyAllowed || !p.flow }
    else { p with cursor := c }

/-- Takes a token of `n` characters. -/
def take (p : Progress) (n : Nat) (t : Token) : Progress :=
  { p.push t with cursor := p.cursor.skip n }

/-! ## Directives -/

private def atLineEnd (c : Cursor) : Option Cursor :=
  let c := c.skipWhile isSpaceOrTab
  let c := if c.sees 0 (· = '#') then c.skipLine else c
  if c.rest.isEmpty then some c
  else if c.sees 0 isBreak then some c.lineEnd.2
  else none

/-- Reads `n` escaped bytes of a tag as characters. -/
private def readUriEscapes : Nat → List UInt8 → Cursor → Option (List Char × Cursor)
  | 0, _, _ => none
  | fuel + 1, bytes, c =>
    match c.rest with
    | '%' :: a :: b :: _ =>
      match Numeral.digits? 16 [a, b] with
      | none => none
      | some n =>
        let bytes := bytes ++ [UInt8.ofNat n]
        match Utf8.decode? bytes with
        | some s => some (s.toList, c.skip 3)
        | none => if bytes.length < 4 then readUriEscapes fuel bytes (c.skip 3) else none
    | _ => none

/-- Reads the characters of a tag. -/
private def readUri (verbatim : Bool) : Nat → List Char → Cursor → Option (List Char × Cursor)
  | 0, _, _ => none
  | fuel + 1, acc, c =>
    match c.head? with
    | none => some (acc.reverse, c)
    | some ch =>
      if ch = '%' then
        match readUriEscapes 5 [] c with
        | some (s, c) => readUri verbatim fuel (s.reverse ++ acc) c
        | none => none
      else if isWordChar ch || ";/?:@&=+$.!~*'()".toList.contains ch ||
          (verbatim && [',', '[', ']'].contains ch) then
        readUri verbatim fuel (ch :: acc) c.next
      else some (acc.reverse, c)

private def uri (verbatim : Bool) (c : Cursor) : Option (List Char × Cursor) :=
  readUri verbatim (c.rest.length + 1) [] c

/-- Reads a tag handle; the last part tells whether it is closed. -/
private def handle? (c : Cursor) : Option (List Char × Cursor × Bool) :=
  if c.sees 0 (· = '!') then
    let name := c.next.rest.takeWhile isWordChar
    let after := c.skip (name.length + 1)
    if after.sees 0 (· = '!') then some ('!' :: name ++ ['!'], after.next, true)
    else some ('!' :: name, after, false)
  else none

/-- Reads a number of a version. -/
private def versionNumber? (c : Cursor) : Option (Nat × Cursor) :=
  let digits := c.rest.takeWhile Numeral.isDigit
  if digits.length > 9 then none
  else (Numeral.digits? 10 digits).map fun n => (n, c.skip digits.length)

/-- Reads a directive at the cursor. -/
private def directive? (c : Cursor) : Option (Token × Cursor) := do
  let name := c.next.rest.takeWhile isWordChar
  let c := c.next.skip name.length
  if !c.endsWord 0 then none
  else if String.ofList name = "YAML" then
    let (major, c) ← versionNumber? (c.skipWhile isSpaceOrTab)
    if !c.sees 0 (· = '.') then none
    else
      let (minor, c) ← versionNumber? c.next
      return (.versionDirective major minor, ← atLineEnd c)
  else if String.ofList name = "TAG" then
    let (handle, c, closed) ← handle? (c.skipWhile isSpaceOrTab)
    if !closed && handle ≠ ['!'] then none
    else if !(c.sees 0 isSpaceOrTab) then none
    else
      let (target, c) ← uri true (c.skipWhile isSpaceOrTab)
      if target.isEmpty || !c.endsWord 0 then none
      else
        return (.tagDirective (String.ofList handle) (String.ofList target), ← atLineEnd c)
  else none

/-! ## Nodes -/

/-- Reads the tag at the cursor. -/
private def tag? (flow : Bool) (c : Cursor) : Option (Token × Cursor) := do
  let (t, c) ←
    if c.sees 1 (· = '<') then do
      let (suffix, c) ← uri true (c.skip 2)
      if suffix.isEmpty || !c.sees 0 (· = '>') then none
      else some (Token.tag "" (String.ofList suffix), c.next)
    else do
      let (handle, c, closed) ← handle? c
      let (rest, c) ← uri false c
      if closed then
        if rest.isEmpty then none else some (Token.tag (String.ofList handle) (String.ofList rest), c)
      else
        let suffix := handle.drop 1 ++ rest
        if suffix.isEmpty then some (Token.tag "" "!", c)
        else some (Token.tag "!" (String.ofList suffix), c)
  if c.endsWord 0 || (flow && c.sees 0 (· = ',')) then some (t, c) else none

/-- Reads the name of an anchor or alias at the cursor. -/
private def anchorName? (c : Cursor) : Option (String × Cursor) :=
  let name := c.next.rest.takeWhile isWordChar
  let c := c.next.skip name.length
  let ended := c.endsWord 0 || c.sees 0 fun ch => ['?', ':', ',', ']', '\x7d', '%', '@', '`'].contains ch
  if name.isEmpty || !ended then none else some (String.ofList name, c)

/-- Whether a plain scalar may start at the cursor. -/
private def startsPlain (flow : Bool) (c : Cursor) : Bool :=
  let indicator := c.sees 0 fun ch =>
    ['-', '?', ':', ',', '[', ']', '\x7b', '\x7d', '#', '&', '*', '!', '|', '>', '\'', '"', '%', '@',
      '`'].contains ch
  (!c.endsWord 0 && !indicator) ||
    (c.sees 0 (· = '-') && !c.sees 1 isSpaceOrTab) ||
    (!flow && c.sees 0 (fun ch => ch = '?' || ch = ':') && !c.endsWord 1)

/-- Takes a node of one token, which may be a key. -/
private def takeNode (p : Progress) (read : Cursor → Option (Token × Cursor)) : Option Progress := do
  let p ← p.noteCandidate
  let (t, c) ← read p.cursor
  return { p.push t with cursor := c, keyAllowed := false }

/-- Takes a marker of documents. -/
private def takeMarker (p : Progress) (t : Token) : Option Progress := do
  let p ← (p.close none).dropCandidate
  return { p.take 3 t with keyAllowed := false }

/-- Takes the colon of a value, and puts the key before the node that precedes
it. -/
private def takeValue (p : Progress) : Option Progress :=
  match p.candidates with
  | some k :: rest =>
    let p := { p with tokens := p.tokens.insertIdxIfInBounds k.position .key }
    let p := p.openBlock k.column k.position .blockMappingStart
    some { p.take 1 .value with candidates := none :: rest, keyAllowed := false }
  | _ =>
    if p.flow then some { p.take 1 .value with keyAllowed := false }
    else if p.keyAllowed then
      let p := p.openBlock p.cursor.column p.tokens.size .blockMappingStart
      some { p.take 1 .value with keyAllowed := true }
    else none

/-- Takes the tokens at the next place of the text. -/
private def step (p : Progress) : Option Progress := do
  let p ← (toNext (p.cursor.rest.length + 1) p).dropStale
  let p := p.close (some p.cursor.column)
  let c := p.cursor
  match c.head? with
  | none => none
  | some ch =>
    if c.column = 0 && ch = '%' then
      let p ← (p.close none).dropCandidate
      let (t, c) ← directive? c
      return { p.push t with cursor := c, keyAllowed := false }
    else if c.atMarker '-' then takeMarker p .documentStart
    else if c.atMarker '.' then takeMarker p .documentEnd
    else if ch = '[' || ch = '\x7b' then
      let p ← p.noteCandidate
      let t := if ch = '[' then Token.flowSequenceStart else .flowMappingStart
      return { p.take 1 t with candidates := none :: p.candidates, keyAllowed := true }
    else if ch = ']' || ch = '\x7d' then
      let p ← p.dropCandidate
      let t := if ch = ']' then Token.flowSequenceEnd else .flowMappingEnd
      return { p.take 1 t with
        candidates := if p.flow then p.candidates.drop 1 else p.candidates
        keyAllowed := false }
    else if ch = ',' then
      let p ← p.dropCandidate
      return { p.take 1 .flowEntry with keyAllowed := true }
    else if ch = '-' && c.endsWord 1 then
      if !p.flow && !p.keyAllowed then none
      else
        let p := p.openBlock c.column p.tokens.size .blockSequenceStart
        let p ← p.dropCandidate
        return { p.take 1 .blockEntry with keyAllowed := true }
    else if ch = '?' && (p.flow || c.endsWord 1) then
      if !p.flow && !p.keyAllowed then none
      else
        let p := p.openBlock c.column p.tokens.size .blockMappingStart
        let p ← p.dropCandidate
        return { p.take 1 .key with keyAllowed := !p.flow }
    else if ch = ':' && (p.flow || c.endsWord 1) then takeValue p
    else if ch = '*' then takeNode p fun c => (anchorName? c).map fun (n, c) => (.alias n, c)
    else if ch = '&' then takeNode p fun c => (anchorName? c).map fun (n, c) => (.anchor n, c)
    else if ch = '!' then takeNode p (tag? p.flow)
    else if (ch = '|' || ch = '>') && !p.flow then
      let p ← p.dropCandidate
      let literal := ch = '|'
      let (text, c) ← readBlock literal p.indent c
      let t := Token.scalar (String.ofList text) (if literal then .literal else .folded)
      return { p.push t with cursor := c, keyAllowed := true }
    else if ch = '\'' || ch = '"' then
      takeNode p fun c => (readQuoted (ch = '\'') (c.rest.length + 1) [] c.next).map fun (text, c) =>
        (.scalar (String.ofList text) .quoted, c)
    else if startsPlain p.flow c then
      let p ← p.noteCandidate
      let indent :=
        match p.indent with
        | none => 0
        | some n => n + 1
      let (text, c, broken) ← readPlain p.flow indent (c.rest.length + 1) [] Gap.empty c
      return { p.push (.scalar (String.ofList text) .plain) with cursor := c, keyAllowed := broken }
    else none

/-- Ends the text: closes all blocks. -/
private def finish (p : Progress) : Option (List Token) := do
  let p ← (p.close none).dropCandidate
  return p.tokens.toList

/-- Takes tokens up to the end of the text; each step takes a character. -/
private def run : Nat → Progress → Option (List Token)
  | 0, _ => none
  | fuel + 1, p =>
    let ahead := toNext (p.cursor.rest.length + 1) p
    if ahead.cursor.rest.isEmpty then (ahead.dropStale).bind finish
    else (step p).bind (run fuel)

end Progress

/-- The tokens of a text, `none` when it is malformed. -/
def ofText? (s : List Char) : Option (List Token) :=
  if s.all isPrintable then
    Progress.run (s.length + 1) ⟨Cursor.start s, #[], none, [], [none], true⟩
  else none

end Token

end PipelineEngine.Yaml
