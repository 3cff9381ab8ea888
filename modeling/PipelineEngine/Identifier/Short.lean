import PipelineEngine.Identifier.Uuid

/-!
# Identifiers as short texts

Two ways to write numbers as texts of letters and digits: one hides their order, the other
keeps it.
-/

/-! ## Short identifiers

Numbers as short texts of letters and digits that do not show their order.  The first
letter says how far the alphabet was turned, and the number is written in the letters
that follow it.

A text may spell a word that is not wanted, and there may be no other text for its number.
Which texts are kept back is not said here: whoever writes short identifiers does it with a
`Shortener`, which may be any function.  Where none is given it keeps nothing back.
-/

namespace PipelineEngine

/-- A number has no short text. -/
structure ShortIdError where
  reason : String
deriving Repr, Inhabited, DecidableEq

def ShortIdError.message (e : ShortIdError) : String := "Failed to encode sqid: " ++ e.reason

/-- What writes numbers of 64 bits as short texts, or says why there is none. -/
class Shortener where
  shorten : Nat → Except ShortIdError String

namespace ShortId

/-- Exchanges two letters. -/
def exchange (letters : List Char) (i j : Nat) : List Char :=
  match letters[i]?, letters[j]? with
  | some a, some b => (letters.set i b).set j a
  | _, _ => letters

/-- Moves each letter but the last to a place that depends on itself, on its place and
on the letter as far from the end. -/
def shuffle (letters : List Char) : List Char :=
  (List.range (letters.length - 1)).foldl (fun (acc : List Char) i =>
    let j := acc.length - 1 - i
    let code (k : Nat) := (acc[k]?.getD ' ').toNat
    exchange acc i ((i * j + code i + code j) % acc.length)) letters

/-- The letters and digits in the order in which they are used. -/
def alphabet : List Char :=
  shuffle "abcdefghijklmnopqrstuvwxyzABCDEFGHIJKLMNOPQRSTUVWXYZ0123456789".toList

/-- The digits of a number in the base of an alphabet, the highest first.  The fuel is
the number of digits at most. -/
def digits (letters : List Char) : Nat → Nat → List Char → List Char
  | 0, _, acc => acc
  | fuel + 1, n, acc =>
    let acc := letters[n % letters.length]?.getD ' ' :: acc
    if n / letters.length = 0 then acc else digits letters fuel (n / letters.length) acc

/-- The text of a number of 64 bits. -/
def encode (n : Nat) : String :=
  let letter := (alphabet[n % alphabet.length]?.getD ' ').toNat
  let offset := (1 + letter) % alphabet.length
  let turned := alphabet.drop offset ++ alphabet.take offset
  String.ofList (turned.take 1 ++ digits (turned.reverse.drop 1) 64 n [])

end ShortId

/-- Every number is written, whatever its text spells. -/
instance : Shortener := ⟨fun n => .ok (ShortId.encode n)⟩

end PipelineEngine

/-! ## Identifiers that sort as text

Values of 128 bits in 26 digits of base 32.  The digits leave out letters that are
easily misread, and stand in increasing order, so texts sort as the values that they
stand for.
-/

namespace PipelineEngine.Crockford

/-- The digits in increasing order. -/
def alphabet : List Char := "0123456789ABCDEFGHJKMNPQRSTVWXYZ".toList

/-- The digit of a value below 32. -/
def digit (n : Nat) : Char := alphabet[n % 32]?.getD '0'

/-- The digits of a value, the highest first. -/
def digits (value : Nat) : Nat → List Char
  | 0 => []
  | n + 1 => digit (value / Nat.pow 32 n) :: digits value n

/-- The text of a value of 128 bits. -/
def encode (value : BitVec 128) : String := String.ofList (digits value.toNat 26)

end PipelineEngine.Crockford
