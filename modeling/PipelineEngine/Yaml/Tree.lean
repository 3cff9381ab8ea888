import PipelineEngine.Yaml.Token

/-!
# Trees of YAML

The tokens of a stream as trees, one for each document.  An anchor gives its node
a slot, and an alias refers to a slot; the slot of a name is the number of names
that stand before it when it is set, so a name that is set again may take the slot
that a later name takes too, and the later node is the one that stays.
-/

namespace PipelineEngine.Yaml

/-- A node of a document. -/
inductive Tree where
  | scalar (s : Scalar)
  | seq (items : List Tree)
  | map (entries : List (Tree × Tree))
  | alias (slot : Nat)
  /-- A node with an anchor. -/
  | anchored (slot : Nat) (inner : Tree)
  /-- A node with a local tag. -/
  | tagged (tag : String) (inner : Tree)
deriving Inhabited

namespace Tree

/-- What is left of a stream, with the names set so far. -/
structure Stream where
  tokens : List Token
  anchors : List (String × Nat)
  /-- The handles that tags may use, with what they stand for. -/
  handles : List (String × String)

abbrev Reader (α : Type) := StateT Stream Option α

namespace Reader

def peek : Reader (Option Token) := do return (← get).tokens.head?

def skip : Reader Unit := modify fun s => { s with tokens := s.tokens.drop 1 }

def fail {α : Type} : Reader α := fun _ => none

/-- Whether the next token is the given one. -/
def sees (t : Token) : Reader Bool := do return (← peek) == some t

/-- Passes the given token when it is next. -/
def accept (t : Token) : Reader Bool := do
  if ← sees t then
    skip
    return true
  else return false

/-- Sets a name to a new slot. -/
def setAnchor (name : String) : Reader Nat := do
  let s ← get
  let slot := s.anchors.length
  set { s with anchors := (name, slot) :: s.anchors.filter (·.1 ≠ name) }
  return slot

/-- The tag of a handle and a suffix. -/
def resolveTag (handle suffix : String) : Reader String := do
  if handle.isEmpty then return suffix
  else
    match (← get).handles.lookup handle with
    | some start => return start ++ suffix
    | none => fail

end Reader

open Reader

/-- The scalar of a node that is not written. -/
def empty : Tree := .scalar ⟨"", .plain, none⟩

/-- A node with its tag: a local one is kept beside it, any other one belongs to
the scalar. -/
def withTag (tag : Option String) (t : Tree) : Tree :=
  match tag with
  | none => t
  | some tag =>
    match tag.toList with
    | '!' :: rest => .tagged (String.ofList rest) t
    | _ =>
      match t with
      | .scalar s => .scalar { s with tag := some tag }
      | t => t

/-- A node with its anchor. -/
def withAnchor (slot : Option Nat) (t : Tree) : Tree :=
  match slot with
  | some n => .anchored n t
  | none => t

/-- Reads the anchor and the tag of a node, in either order. -/
def properties : Reader (Option Nat × Option String) := do
  match ← peek with
  | some (.anchor name) =>
    skip
    let slot ← setAnchor name
    match ← peek with
    | some (.tag handle suffix) =>
      skip
      return (some slot, some (← resolveTag handle suffix))
    | _ => return (some slot, none)
  | some (.tag handle suffix) =>
    skip
    let tag ← resolveTag handle suffix
    match ← peek with
    | some (.anchor name) =>
      skip
      return (some (← setAnchor name), some tag)
    | _ => return (none, some tag)
  | _ => return (none, none)

/-- Whether the next token ends an entry of a block mapping. -/
def atMappingGap : Reader Bool := do
  match ← peek with
  | some .key | some .value | some .blockEnd => return true
  | _ => return false

mutual

/-- Reads a node.  `block` allows block collections, `indentless` a sequence
without indentation of its own. -/
def node (block indentless : Bool) : Nat → Reader Tree
  | 0 => fail
  | fuel + 1 => do
    match ← peek with
    | some (.alias name) =>
      skip
      match (← get).anchors.lookup name with
      | some slot => return .alias slot
      | none => fail
    | _ =>
      let (slot, tag) ← properties
      let wrap (t : Tree) := withAnchor slot (withTag tag t)
      match ← peek with
      | some .blockEntry =>
        if indentless then return wrap (.seq (← indentlessEntries fuel))
        else if slot.isSome || tag.isSome then return wrap empty
        else fail
      | some (.scalar text style) =>
        skip
        return wrap (.scalar ⟨text, style, none⟩)
      | some .flowSequenceStart =>
        skip
        return wrap (.seq (← flowItems true fuel))
      | some .flowMappingStart =>
        skip
        return wrap (.map (← flowEntries true fuel))
      | next =>
        if block && next == some .blockSequenceStart then
          skip
          return wrap (.seq (← blockEntries fuel))
        else if block && next == some .blockMappingStart then
          skip
          return wrap (.map (← blockPairs fuel))
        else if slot.isSome || tag.isSome then return wrap empty
        else fail

/-- Reads the entries of a block sequence. -/
def blockEntries : Nat → Reader (List Tree)
  | 0 => fail
  | fuel + 1 => do
    if ← accept .blockEntry then
      let item ←
        if (← sees .blockEntry) || (← sees .blockEnd) then pure empty else node true false fuel
      return item :: (← blockEntries fuel)
    else if ← accept .blockEnd then return []
    else fail

/-- Reads the entries of a sequence without indentation of its own. -/
def indentlessEntries : Nat → Reader (List Tree)
  | 0 => fail
  | fuel + 1 => do
    if ← accept .blockEntry then
      let item ←
        if (← sees .blockEntry) || (← atMappingGap) then pure empty else node true false fuel
      return item :: (← indentlessEntries fuel)
    else return []

/-- Reads the pairs of a block mapping. -/
def blockPairs : Nat → Reader (List (Tree × Tree))
  | 0 => fail
  | fuel + 1 => do
    if ← accept .key then
      let key ← if ← atMappingGap then pure empty else node true true fuel
      let value ←
        if ← accept .value then
          if ← atMappingGap then pure empty else node true true fuel
        else pure empty
      return (key, value) :: (← blockPairs fuel)
    else if ← accept .blockEnd then return []
    else fail

/-- Reads the items of a flow sequence. -/
def flowItems (first : Bool) : Nat → Reader (List Tree)
  | 0 => fail
  | fuel + 1 => do
    if ← accept .flowSequenceEnd then return []
    else
      let comma ← if first then pure true else accept .flowEntry
      if !comma then fail
      else if ← accept .key then
        let pair ← flowPair fuel
        return .map [pair] :: (← flowItems false fuel)
      else if ← accept .flowSequenceEnd then return []
      else
        let item ← node false false fuel
        return item :: (← flowItems false fuel)

/-- Reads the single pair of a mapping inside a flow sequence, after its key
token. -/
def flowPair : Nat → Reader (Tree × Tree)
  | 0 => fail
  | fuel + 1 => do
    let key ←
      match ← peek with
      | some .value | some .flowEntry | some .flowSequenceEnd =>
        -- The token after an empty key is passed over with it.
        skip
        pure empty
      | _ => node false false fuel
    let value ←
      if ← accept .value then
        if (← sees .flowEntry) || (← sees .flowSequenceEnd) then pure empty
        else node false false fuel
      else pure empty
    return (key, value)

/-- Reads the pairs of a flow mapping. -/
def flowEntries (first : Bool) : Nat → Reader (List (Tree × Tree))
  | 0 => fail
  | fuel + 1 => do
    if ← accept .flowMappingEnd then return []
    else
      let comma ← if first then pure true else accept .flowEntry
      if !comma then fail
      else if ← accept .key then
        let key ←
          match ← peek with
          | some .value | some .flowEntry | some .flowMappingEnd => pure empty
          | _ => node false false fuel
        let value ←
          if ← accept .value then
            if (← sees .flowEntry) || (← sees .flowMappingEnd) then pure empty
            else node false false fuel
          else pure empty
        return (key, value) :: (← flowEntries false fuel)
      else if ← accept .flowMappingEnd then return []
      else
        let key ← node false false fuel
        return (key, empty) :: (← flowEntries false fuel)

end

/-- The handles that hold in every document. -/
def standardHandles : List (String × String) :=
  [("!", "!"), ("!!", "tag:yaml.org,2002:")]

/-- Reads the directives of a document, each at most once. -/
def directives : Nat → Bool → List (String × String) → Reader (Bool × List (String × String))
  | 0, _, _ => fail
  | fuel + 1, version, handles => do
    match ← peek with
    | some (.versionDirective major minor) =>
      skip
      if version || major ≠ 1 || (minor ≠ 1 && minor ≠ 2) then fail
      else directives fuel true handles
    | some (.tagDirective handle uri) =>
      skip
      if handles.any (·.1 = handle) then fail
      else directives fuel version ((handle, uri) :: handles)
    | _ => return (version, handles)

/-- Reads the document that starts here, none at the end of the stream. -/
def document (first : Bool) (fuel : Nat) : Reader (Option Tree) := do
  if !first then
    modify fun s => { s with tokens := s.tokens.dropWhile (· == .documentEnd) }
  modify fun s => { s with anchors := [], handles := standardHandles }
  match ← peek with
  | none => return none
  | some (.versionDirective ..) | some (.tagDirective ..) | some .documentStart =>
    let (_, handles) ← directives fuel false []
    modify fun s => { s with handles := handles ++ standardHandles }
    if !(← accept .documentStart) then fail
    else
      match ← peek with
      | none | some (.versionDirective ..) | some (.tagDirective ..) | some .documentStart
      | some .documentEnd => return some empty
      | some _ => return some (← node true false fuel)
  | some _ =>
    if first then return some (← node true false fuel) else fail

/-- Reads the documents of a stream. -/
def documents (fuel : Nat) (first : Bool) : Nat → Reader (List Tree)
  | 0 => fail
  | count + 1 => do
    match ← document first fuel with
    | none => return []
    | some t =>
      discard (accept .documentEnd)
      return t :: (← documents fuel false count)

/-- The documents of a text. -/
def ofText? (s : List Char) : Option (List Tree) := do
  let tokens ← Token.ofText? s
  let fuel := 2 * tokens.length + 2
  let (trees, _) ← (documents fuel true (tokens.length + 1)).run ⟨tokens, [], standardHandles⟩
  return trees

/-! ## Counting -/

mutual

/-- The number of events of a tree: two for a collection, one for all else. -/
def events : Tree → Nat
  | .scalar _ => 1
  | .alias _ => 1
  | .seq items => 2 + eventsOfItems items
  | .map entries => 2 + eventsOfEntries entries
  | .anchored _ inner => events inner
  | .tagged _ inner => events inner

def eventsOfItems : List Tree → Nat
  | [] => 0
  | t :: rest => events t + eventsOfItems rest

def eventsOfEntries : List (Tree × Tree) → Nat
  | [] => 0
  | (k, v) :: rest => events k + events v + eventsOfEntries rest

end

mutual

/-- The nodes of a tree that have slots, the latest first. -/
def slots : Tree → List (Nat × Tree) → List (Nat × Tree)
  | .scalar _, acc => acc
  | .alias _, acc => acc
  | .seq items, acc => slotsOfItems items acc
  | .map entries, acc => slotsOfEntries entries acc
  | .anchored n inner, acc => slots inner ((n, inner) :: acc)
  | .tagged _ inner, acc => slots inner acc

def slotsOfItems : List Tree → List (Nat × Tree) → List (Nat × Tree)
  | [], acc => acc
  | t :: rest, acc => slotsOfItems rest (slots t acc)

def slotsOfEntries : List (Tree × Tree) → List (Nat × Tree) → List (Nat × Tree)
  | [], acc => acc
  | (k, v) :: rest, acc => slotsOfEntries rest (slots v (slots k acc))

end

end Tree

end PipelineEngine.Yaml
