import PipelineEngine.Decimal.Read
import PipelineEngine.Text.Utf8
import PipelineEngine.Value.Basic
import PipelineEngine.Word

/-!
# Reading JSON

The value that a JSON text denotes.  `Value.read?` takes exactly one value with
blanks around it.  Arrays and objects may be nested less than 128 deep.  A number
without point and exponent that fits 64 bits is an integer, any other number a
double, and one too large for a double is refused.  Of repeated names in an
object the last stays.

Each reader of a part answers with the rest of the text together with the fact
that the rest is shorter, which is what the recursion descends on.
-/

namespace PipelineEngine

namespace Value.Json

/-- What is left of `s` after reading something from its front. -/
abbrev Rest (s : List Char) := { r : List Char // r.length < s.length }

/-- The blanks between tokens. -/
def isSpace (c : Char) : Bool :=
  c = ' ' || c = '\n' || c = '\t' || c = '\r'

/-- The text without leading blanks. -/
def skip (s : List Char) : List Char := s.dropWhile isSpace

theorem length_dropWhile_le {α : Type} (p : α → Bool) (s : List α) :
    (s.dropWhile p).length ≤ s.length :=
  (List.dropWhile_suffix p).sublist.length_le

theorem length_skip_le (s : List Char) : (skip s).length ≤ s.length :=
  length_dropWhile_le _ s

/-! ## Strings -/

/-- The value of four hexadecimal digits. -/
def hex4? (a b c d : Char) : Option Nat := Numeral.digits? 16 [a, b, c, d]

/-- The character of a short escape. -/
def shortEscape? (c : Char) : Option Char :=
  if c = '"' ∨ c = '\\' ∨ c = '/' then some c
  else if c = 'b' then some '\x08'
  else if c = 'f' then some '\x0c'
  else if c = 'n' then some '\n'
  else if c = 'r' then some '\r'
  else if c = 't' then some '\t'
  else none

/-- Reads the rest of a string whose opening quote is gone.  Surrogate escapes
must come in pairs. -/
def stringTail : (s : List Char) → Option (List Char × Rest s)
  | [] => none
  | '"' :: rest => some ([], ⟨rest, by simp⟩)
  | '\\' :: 'u' :: a :: b :: c :: d :: rest => do
    let n ← hex4? a b c d
    if 0xD800 ≤ n ∧ n ≤ 0xDBFF then
      match hl : rest with
      | '\\' :: 'u' :: e :: f :: g :: h :: rest => do
        let m ← hex4? e f g h
        if 0xDC00 ≤ m ∧ m ≤ 0xDFFF then
          let (cs, ⟨r, hr⟩) ← stringTail rest
          some (Char.ofNat (0x10000 + (n - 0xD800) * 0x400 + (m - 0xDC00)) :: cs,
            ⟨r, by have hn := congrArg List.length hl; simp at hn hr ⊢; omega⟩)
        else none
      | _ => none
    else if 0xDC00 ≤ n ∧ n ≤ 0xDFFF then none
    else
      let (cs, ⟨r, hr⟩) ← stringTail rest
      some (Char.ofNat n :: cs, ⟨r, by simp at hr ⊢; omega⟩)
  | '\\' :: c :: rest => do
    let e ← shortEscape? c
    let (cs, ⟨r, hr⟩) ← stringTail rest
    some (e :: cs, ⟨r, by simp at hr ⊢; omega⟩)
  | c :: rest =>
    if c = '\\' ∨ c.toNat < 0x20 then none
    else do
      let (cs, ⟨r, hr⟩) ← stringTail rest
      some (c :: cs, ⟨r, by simp at hr ⊢; omega⟩)

/-! ## Numbers -/

/-- A numeral split off the front of a text. -/
structure Numeral where
  parts : Decimal.Parts
  /-- Neither point nor exponent is written. -/
  plain : Bool

/-- Reads the exponent part at the front of a text, zero when there is none. -/
def exponentFront (s : List Char) : Option (Int × Bool × List Char) :=
  match s with
  | c :: rest =>
    if c = 'e' ∨ c = 'E' then
      let (negative, digits) :=
        match rest with
        | '-' :: more => (true, more)
        | '+' :: more => (false, more)
        | more => (false, more)
      (PipelineEngine.Numeral.digits? 10 (digits.takeWhile PipelineEngine.Numeral.isDigit)).map fun n =>
        (if negative then -(n : Int) else n, true, digits.dropWhile PipelineEngine.Numeral.isDigit)
    else some (0, false, s)
  | [] => some (0, false, s)

/-- Reads an unsigned numeral from the front of a text: no digit after a
leading zero, and at least one digit on each side of the point. -/
def numeralFront (s : List Char) : Option (Numeral × List Char) :=
  let whole := s.takeWhile PipelineEngine.Numeral.isDigit
  let afterWhole := s.dropWhile PipelineEngine.Numeral.isDigit
  if whole.isEmpty || (whole.head? == some '0' && whole.length > 1) then none
  else
    match afterWhole with
    | '.' :: rest =>
      let fraction := rest.takeWhile PipelineEngine.Numeral.isDigit
      if fraction.isEmpty then none
      else
        (exponentFront (rest.dropWhile PipelineEngine.Numeral.isDigit)).map fun (e, _, rest) =>
          (⟨⟨whole, fraction, e⟩, false⟩, rest)
    | rest =>
      (exponentFront rest).map fun (e, written, rest) => (⟨⟨whole, [], e⟩, !written⟩, rest)

/-- The number of a numeral with a sign. -/
def Numeral.number? (negative : Bool) (n : Numeral) : Option Number :=
  let whole := (PipelineEngine.Numeral.digits? 10 n.parts.whole).getD 0
  if n.plain && !negative && decide (whole < Word.bound 64) then some (.int whole)
  else if n.plain && negative && decide (0 < whole) && decide (whole ≤ Word.bound 63) then
    some (.int (-(whole : Int)))
  else n.parts.scaled.map fun x => .float (if negative then -x else x)

/-! ## Values -/

/-- Reads a word from the front of a text. -/
def word? (w : List Char) (v : Value) (s : List Char) : Option (Value × List Char) :=
  if w.isPrefixOf s then some (v, s.drop w.length) else none

/-- Reads a value that is neither string, array nor object. -/
def leaf? (s : List Char) : Option (Value × List Char) :=
  match s with
  | 't' :: _ => word? ['t', 'r', 'u', 'e'] (.bool true) s
  | 'f' :: _ => word? ['f', 'a', 'l', 's', 'e'] (.bool false) s
  | 'n' :: _ => word? ['n', 'u', 'l', 'l'] .null s
  | '-' :: rest => do
    let (n, rest) ← numeralFront rest
    let n ← n.number? true
    some (.number n, rest)
  | _ => do
    let (n, rest) ← numeralFront s
    let n ← n.number? false
    some (.number n, rest)

/-- The rest as a proper part of `s`; every token takes at least one
character, so this refuses nothing. -/
def shorter? (s r : List Char) : Option (Rest s) :=
  if h : r.length < s.length then some ⟨r, h⟩ else none

mutual

/-- Reads a value from the front of a text without leading blanks. `depth` bounds
the nesting still allowed. -/
def value? (depth : Nat) (s : List Char) : Option (Value × Rest s) :=
  match s with
  | '"' :: rest => do
    let (cs, ⟨r, hr⟩) ← stringTail rest
    some (.string (String.ofList cs), ⟨r, by simp; omega⟩)
  | '[' :: rest =>
    if depth = 0 then none
    else
      match h : skip rest with
      | ']' :: r =>
        some (.array [], ⟨r, by have := length_skip_le rest; rw [h] at this; simp at this ⊢; omega⟩)
      | _ => do
        let (items, ⟨r, hr⟩) ← items? (depth - 1) rest
        some (.array items, ⟨r, by simp; omega⟩)
  | '\x7b' :: rest =>
    if depth = 0 then none
    else
      match h : skip rest with
      | '\x7d' :: r =>
        some (.object [], ⟨r, by have := length_skip_le rest; rw [h] at this; simp at this ⊢; omega⟩)
      | _ => do
        let (pairs, ⟨r, hr⟩) ← members? (depth - 1) rest
        some (.ofPairs pairs, ⟨r, by simp; omega⟩)
  | s => do
    let (v, r) ← leaf? s
    let r ← shorter? s r
    some (v, r)
termination_by (s.length, 0)

/-- Reads the items of an array up to its closing bracket. -/
def items? (depth : Nat) (s : List Char) : Option (List Value × Rest s) := do
  let (v, ⟨r, hr⟩) ← value? depth (skip s)
  have hs := length_skip_le s
  match h : skip r with
  | ',' :: rest =>
    have hl : rest.length < s.length := by
      have := length_skip_le r; rw [h] at this; simp at this; omega
    let (vs, ⟨q, hq⟩) ← items? depth rest
    some (v :: vs, ⟨q, by omega⟩)
  | ']' :: rest =>
    some ([v], ⟨rest, by have := length_skip_le r; rw [h] at this; simp at this; omega⟩)
  | _ => none
termination_by (s.length, 1)
decreasing_by
  · have := length_skip_le s
    rcases Nat.lt_or_ge (skip s).length s.length with h | h
    · exact Prod.Lex.left _ _ h
    · rw [show (skip s).length = s.length by omega]; exact Prod.Lex.right _ (by omega)
  · exact Prod.Lex.left _ _ hl

/-- Reads the members of an object up to its closing brace. -/
def members? (depth : Nat) (s : List Char) : Option (List (String × Value) × Rest s) :=
  match hk : skip s with
  | '"' :: k => do
    have hs := length_skip_le s
    have hks : k.length < s.length := by rw [hk] at hs; simp at hs; omega
    let (name, ⟨r, hr⟩) ← stringTail k
    match hc : skip r with
    | ':' :: afterColon => do
      have hac : afterColon.length < s.length := by
        have := length_skip_le r; rw [hc] at this; simp at this; omega
      let (v, ⟨q, hq⟩) ← value? depth (skip afterColon)
      have hsk := length_skip_le afterColon
      match h : skip q with
      | ',' :: rest => do
        have hl : rest.length < s.length := by
          have := length_skip_le q; rw [h] at this; simp at this; omega
        let (more, ⟨z, hz⟩) ← members? depth rest
        some ((String.ofList name, v) :: more, ⟨z, by omega⟩)
      | '\x7d' :: rest =>
        some ([(String.ofList name, v)],
          ⟨rest, by have := length_skip_le q; rw [h] at this; simp at this; omega⟩)
      | _ => none
    | _ => none
  | _ => none
termination_by (s.length, 1)
decreasing_by
  · have := length_skip_le afterColon
    exact Prod.Lex.left _ _ (by omega)
  · exact Prod.Lex.left _ _ hl

end

/-- Arrays and objects may be nested this deep. -/
def maxDepth : Nat := 127

end Value.Json

/-- The value of a JSON text. -/
def Value.read? (s : List Char) : Option Value := do
  let (v, r) ← Json.value? Json.maxDepth (Json.skip s)
  if (Json.skip r.val).isEmpty then some v else none

/-- The fields of an object as they are written, repeated ones included, when the text
is an object. -/
def Value.readMembers? (s : List Char) : Option (List (String × Value)) :=
  match Json.skip s with
  | '\x7b' :: rest =>
    match Json.skip rest with
    | '\x7d' :: r => if (Json.skip r).isEmpty then some [] else none
    | _ => do
      let (members, r) ← Json.members? (Json.maxDepth - 1) rest
      if (Json.skip r.val).isEmpty then some members else none
  | _ => none

/-- The value of a JSON text given as bytes. -/
def Value.readBytes? (bytes : List UInt8) : Option Value :=
  (Utf8.decode? bytes).bind fun s => Value.read? s.toList

end PipelineEngine
