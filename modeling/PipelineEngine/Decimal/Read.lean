import PipelineEngine.Text.Numeral
import PipelineEngine.Word

/-!
# Reading decimals

Two readings of a decimal numeral as a double.  `nearest` gives the double
nearest to the numeral, however many digits it has.  `scaled` is the quicker
reading of data files: the significand is held in 64 bits and then multiplied or
divided once by a power of ten, so the last bit may differ from the nearest
double.
-/

namespace PipelineEngine.Decimal

/-- The parts of a decimal numeral: its digits before and after the point and
its exponent. -/
structure Parts where
  whole : List Char
  fraction : List Char
  exponent : Int
deriving Repr, DecidableEq

/-- The double nearest to the numeral, infinite when it is too large. -/
def Parts.nearest (p : Parts) : Float :=
  let all := p.whole ++ p.fraction
  let digits := all.dropWhile (· = '0')
  let value := (Numeral.digitsFrom 10 0 digits).getD 0
  let exponent := p.exponent - p.fraction.length
  -- The exponent of the leading digit decides the hopeless cases without
  -- writing out a power of ten.
  let lead := exponent + digits.length
  if value = 0 ∨ lead < -400 then 0.0
  else if lead > 400 then Float.ofScientific 1 false 400
  else Float.ofScientific value (exponent < 0) exponent.natAbs

/-- The optional exponent of a numeral, which must end there. -/
private def exponent? : List Char → Option Int
  | [] => some 0
  | c :: rest => if c = 'e' ∨ c = 'E' then Numeral.integer? 10 rest else none

/-- The parts of an unsigned numeral.  The point may stand at either end, but
not alone. -/
def parts? (s : List Char) : Option Parts :=
  let whole := s.takeWhile Numeral.isDigit
  match s.dropWhile Numeral.isDigit with
  | '.' :: rest =>
    let fraction := rest.takeWhile Numeral.isDigit
    if whole.isEmpty && fraction.isEmpty then none
    else (exponent? (rest.dropWhile Numeral.isDigit)).map fun e => ⟨whole, fraction, e⟩
  | rest => if whole.isEmpty then none else (exponent? rest).map fun e => ⟨whole, [], e⟩

/-- The double nearest to a numeral with an optional sign; `none` also when
it is too large for a double. -/
def nearest? (s : List Char) : Option Float :=
  let (negative, unsigned) :=
    match s with
    | '-' :: rest => (true, rest)
    | '+' :: rest => (false, rest)
    | rest => (false, rest)
  (parts? unsigned).bind fun p =>
    let x := p.nearest
    if x.isInf then none else some (if negative then -x else x)

/-! ## Scaled reading -/

/-- The greatest significand that 64 bits hold. -/
private def maxSignificand : Nat := Word.bound 64 - 1

/-- Appends digits to a significand as long as 64 bits hold it; the second part
is the number of digits left over. -/
private def accumulate : Nat → List Char → Nat × Nat
  | acc, [] => (acc, 0)
  | acc, c :: rest =>
    let next := acc * 10 + (c.toNat - '0'.toNat)
    if next > maxSignificand then (acc, rest.length + 1) else accumulate next rest

/-- Multiplies by `10 ^ e`, in steps of 308 for a small result; `none` when the
result is too large. -/
private def scaleBy : Nat → Float → Int → Option Float
  | 0, x, _ => some x
  | fuel + 1, x, e =>
    if e.natAbs ≤ 308 then
      let power := Float.ofScientific 1 false e.natAbs
      if 0 ≤ e then
        let y := x * power
        if y.isInf then none else some y
      else some (x / power)
    else if x == 0.0 then some x
    else if 0 ≤ e then none
    else scaleBy fuel (x / Float.ofScientific 1 false 308) (e + 308)

/-- The double that the parts scale to, `none` when it is too large. -/
def Parts.scaled (p : Parts) : Option Float :=
  let (whole, dropped) := accumulate 0 p.whole
  let (significand, skipped) := accumulate whole p.fraction
  let kept := p.fraction.length - skipped
  let x := significand.toUInt64.toFloat
  -- Exponents beyond 32 bits are settled by the significand alone.
  if p.exponent.natAbs ≥ Word.bound 31 then
    if significand ≠ 0 ∧ 0 < p.exponent then none else some 0.0
  else
    let e := p.exponent + dropped - kept
    -- Ten divisions by `1e308` bring every significand to zero.
    scaleBy 12 x (if e < -3400 then -3400 else e)

end PipelineEngine.Decimal
