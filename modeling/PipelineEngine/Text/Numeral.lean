/-!
# Numerals

Reading and writing whole numbers.  A numeral is one or more digits of a base;
a sign may stand before it where the reader says so.  Bounds are applied after
reading, so a numeral of any length is read exactly.
-/

namespace PipelineEngine.Numeral

/-- The value of a digit in a base of at most sixteen. -/
def digit? (base : Nat) (c : Char) : Option Nat :=
  let value :=
    if '0' ≤ c ∧ c ≤ '9' then some (c.toNat - '0'.toNat)
    else if 'a' ≤ c ∧ c ≤ 'f' then some (c.toNat - 'a'.toNat + 10)
    else if 'A' ≤ c ∧ c ≤ 'F' then some (c.toNat - 'A'.toNat + 10)
    else none
  value.filter (· < base)

/-- The value of a list of digits read after `acc`. -/
def digitsFrom (base : Nat) : Nat → List Char → Option Nat
  | acc, [] => some acc
  | acc, c :: rest => (digit? base c).bind fun d => digitsFrom base (acc * base + d) rest

/-- The value of a numeral without a sign. -/
def digits? (base : Nat) (s : List Char) : Option Nat :=
  if s.isEmpty then none else digitsFrom base 0 s

/-- A natural number, with an optional plus sign. -/
def natural? (base : Nat) : List Char → Option Nat
  | '+' :: rest => digits? base rest
  | s => digits? base s

/-- An integer, with an optional sign. -/
def integer? (base : Nat) : List Char → Option Int
  | '-' :: rest => (digits? base rest).map fun n => -(n : Int)
  | s => (natural? base s).map Int.ofNat

/-- Whether the character is an ASCII digit. -/
def isDigit (c : Char) : Bool := '0' ≤ c && c ≤ '9'

/-- The decimal digits of a natural number, the least significant first. -/
def digitsRev (base : Nat) (n : Nat) : List Nat :=
  if _h : base < 2 ∨ n < base then [n] else (n % base) :: digitsRev base (n / base)
termination_by n
decreasing_by exact Nat.div_lt_self (by omega) (by omega)

/-- The character of a digit below sixteen, in lower case. -/
def digitChar (d : Nat) : Char :=
  if d < 10 then Char.ofNat ('0'.toNat + d) else Char.ofNat ('a'.toNat + (d - 10))

/-- A natural number written in a base, at least `width` digits long. -/
def padded (base width n : Nat) : String :=
  let ds := (digitsRev base n).reverse.map digitChar
  String.ofList (List.replicate (width - ds.length) '0' ++ ds)

/-- A natural number written in decimal. -/
def decimal (n : Nat) : String := padded 10 1 n

/-- An integer written in decimal. -/
def signed (n : Int) : String :=
  match n with
  | .ofNat n => decimal n
  | .negSucc n => "-" ++ decimal (n + 1)

/-- Bytes written as two hexadecimal digits each. -/
def hex (bytes : List UInt8) : String :=
  String.join (bytes.map fun b => padded 16 2 b.toNat)

/-- The bytes of a hexadecimal text of even length. -/
def unhex? : List Char → Option (List UInt8)
  | [] => some []
  | [_] => none
  | a :: b :: rest => do
    let high ← digit? 16 a
    let low ← digit? 16 b
    let more ← unhex? rest
    some (UInt8.ofNat (high * 16 + low) :: more)

end PipelineEngine.Numeral
