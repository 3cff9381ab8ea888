import PipelineEngine.Text.Cut
import PipelineEngine.Text.Numeral
import PipelineEngine.Word

/-!
# Run identifiers

Identifiers of 128 bits in their usual text form: 32 hexadecimal digits in five groups.
-/

namespace PipelineEngine

/-- An identifier of 128 bits. -/
structure Uuid where
  bits : BitVec 128
deriving Repr, Inhabited, DecidableEq

namespace Uuid

def zero : Uuid := ⟨0⟩

def ofNat (n : Nat) : Uuid := ⟨BitVec.ofNat 128 n⟩

/-- The identifier of random bits, which says of itself that it is one. -/
def ofRandom (n : Nat) : Uuid :=
  let version := 4 * Word.bound 76
  let variant := 2 * Word.bound 62
  ofNat (n / Word.bound 80 % Word.bound 48 * Word.bound 80 + version + n / Word.bound 64 % Word.bound 12 * Word.bound 64 + variant + n % Word.bound 62)

/-- The lengths of the groups of digits. -/
def groups : List Nat := [8, 4, 4, 4, 12]

/-- A text cut into groups of given lengths, with hyphens between them. -/
def hyphenate : List Nat → List Char → List Char
  | [], s => s
  | [_], s => s
  | n :: rest, s => s.take n ++ '-' :: hyphenate rest (s.drop n)

/-- The 32 digits. -/
def digits (u : Uuid) : List Char := (Numeral.padded 16 32 u.bits.toNat).toList

/-- The text of an identifier, in small letters. -/
def text (u : Uuid) : String := String.ofList (hyphenate groups u.digits)

/-- Takes the hyphens out from between groups of given lengths. -/
def joinGroups? : List Nat → List Char → Option (List Char)
  | [], s => if s.isEmpty then some [] else none
  | [n], s => if s.length = n then some s else none
  | n :: rest, s =>
    match s.drop n with
    | '-' :: more => if (s.take n).length = n then (joinGroups? rest more).map (s.take n ++ ·) else none
    | _ => none

/-- The identifier of 32 digits. -/
def ofDigits? (s : List Char) : Option Uuid :=
  if s.length = 32 then (Numeral.digits? 16 s).map ofNat else none

/-- The digits of a text: with hyphens, also in braces or after `urn:uuid:`, or without
hyphens. -/
def digitsOf? (s : List Char) : Option (List Char) :=
  match Text.dropMark? "urn:uuid:".toList s with
  | some rest => joinGroups? groups rest
  | none =>
    match s with
    | '\x7b' :: rest =>
      match rest.getLast? with
      | some '\x7d' => joinGroups? groups rest.dropLast
      | _ => none
    | _ => if s.length = 32 then some s else joinGroups? groups s

/-- Reads an identifier. -/
def parse? (s : String) : Option Uuid := (digitsOf? s.toList).bind ofDigits?

end Uuid

end PipelineEngine
