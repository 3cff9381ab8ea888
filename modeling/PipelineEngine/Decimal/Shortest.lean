import PipelineEngine.Text.Numeral
import PipelineEngine.Word

/-!
# Shortest decimals

The shortest decimal that reads back as a given binary number, and its text.

A finite double is `m * 2 ^ q`.  The reals that round to it form an interval
whose ends belong to it exactly when `m` is even.  For one digit, two digits and
so on, `shortest` looks at the two neighbours of the number on the decimal grid
with that many digits: the first grid with a neighbour inside the interval wins,
of two neighbours the nearer, and the even one on a tie.  Seventeen digits always
suffice.

All arithmetic is on `Nat`, so the definitions evaluate in proofs.
-/

namespace PipelineEngine.Decimal

/-- A non-zero finite binary number `mantissa * 2 ^ exponent`. -/
structure Binary where
  mantissa : Nat
  exponent : Int
  /-- Whether the next smaller number is only half a unit away. -/
  narrowBelow : Bool

/-- The magnitude of a double, `none` for zero, infinities and NaN. -/
def Binary.ofFloat? (x : Float) : Option Binary :=
  let bits : Nat := x.toBits.toNat
  let biased : Nat := (bits / Word.bound 52) % 2048
  let fraction : Nat := bits % Word.bound 52
  if biased = 2047 then none
  else if biased = 0 then
    if fraction = 0 then none else some ⟨fraction, -1074, false⟩
  else
    some ⟨Word.bound 52 + fraction, (biased : Int) - 1075, fraction = 0 && biased > 1⟩

/-- A decimal number `digits * 10 ^ exponent`. -/
structure Digits where
  digits : Nat
  exponent : Int
deriving Repr, DecidableEq

/-- `2 ^ e` as a factor of a numerator, one for negative `e`. -/
private def up (base : Nat) (e : Int) : Nat := Nat.pow base e.toNat

/-- Whether `digits * 10 ^ e` rounds to the number. -/
def Binary.roundsTo (b : Binary) (d : Digits) : Bool :=
  -- Both sides in units of `2 ^ (exponent - 2)`.
  let low := 4 * b.mantissa - (if b.narrowBelow then 1 else 2)
  let high := 4 * b.mantissa + 2
  let scale := up 2 (b.exponent - 2) * up 10 (-d.exponent)
  let point := d.digits * up 10 d.exponent * up 2 (2 - b.exponent)
  if b.mantissa % 2 = 0 then low * scale ≤ point && point ≤ high * scale
  else low * scale < point && point < high * scale

/-- The quotient and remainder of the number on the grid `10 ^ e`, with the
divisor. -/
private def Binary.onGrid (b : Binary) (e : Int) : Nat × Nat × Nat :=
  let num := b.mantissa * up 2 b.exponent * up 10 (-e)
  let den := up 10 e * up 2 (-b.exponent)
  (num / den, num % den, den)

/-- The exponent of the number's leading decimal digit. -/
private def Binary.leading (b : Binary) : Int :=
  let num := b.mantissa * up 2 b.exponent
  let den := up 2 (-b.exponent)
  if den ≤ num then (((num / den).log2 * 30103 / 100000 : Nat) : Int) |> fun guess =>
    if Nat.pow 10 (guess.toNat + 1) ≤ num / den then guess + 1 else guess
  else
    -- The number is below one: look for the first power of ten that reaches it.
    let guess := ((den / num).log2 * 30103 / 100000 : Nat)
    if Nat.pow 10 guess * num ≥ den then -(guess : Int)
    else if Nat.pow 10 (guess + 1) * num ≥ den then -((guess : Int) + 1)
    else -((guess : Int) + 2)

/-- The neighbour of the number on the grid of the given step that reads back,
if there is one. -/
private def Binary.onStep (b : Binary) (step : Int) : Option Digits :=
  let (below, rem, den) := b.onGrid step
  let down : Digits := ⟨below, step⟩
  let above : Digits := ⟨below + 1, step⟩
  match b.roundsTo down, b.roundsTo above with
  | true, false => some down
  | false, true => some above
  | false, false => none
  | true, true =>
    if 2 * rem < den then some down
    else if 2 * rem > den then some above
    else if below % 2 = 0 then some down else some above

/-- Looks for the shortest decimal among those with the given number of digits
or up to `more` more. -/
private def Binary.shortestFrom (b : Binary) (lead : Int) : Nat → Nat → Digits
  | count, 0 => ⟨(b.onGrid (lead - count + 1)).1, lead - count + 1⟩
  | count, more + 1 =>
    match b.onStep (lead - count + 1) with
    | some d => d
    | none => b.shortestFrom lead (count + 1) more

/-- The digits without trailing zeros. -/
private def Digits.stripped : Nat → Digits → Digits
  | 0, d => d
  | fuel + 1, d =>
    if d.digits ≠ 0 ∧ d.digits % 10 = 0 then
      Digits.stripped fuel ⟨d.digits / 10, d.exponent + 1⟩
    else d

/-- The shortest decimal that reads back as the number. -/
def Binary.shortest (b : Binary) : Digits :=
  (b.shortestFrom b.leading 1 17).stripped 20

/-- The notation of floats: positional from `1e-5` up to below `1e16`, with at
least one digit after the point; scientific elsewhere, with a plus sign before
a positive exponent. -/
def Digits.text (d : Digits) : String :=
  let ds := Numeral.decimal d.digits
  let count := ds.length
  -- The number of digits before the point.
  let point := (count : Int) + d.exponent
  let positional : Bool := decide (-5 < point) && decide (point ≤ 16)
  if positional then
    if 0 ≤ d.exponent then
      ds ++ String.ofList (List.replicate d.exponent.toNat '0') ++ ".0"
    else if 0 < point then
      String.ofList (ds.toList.take point.toNat) ++ "." ++ String.ofList (ds.toList.drop point.toNat)
    else
      "0." ++ String.ofList (List.replicate (-point).toNat '0') ++ ds
  else
    let exponent := point - 1
    let mark := if exponent < 0 then "e" else "e+"
    let rest := ds.toList.drop 1
    String.ofList (ds.toList.take 1) ++ (if rest.isEmpty then "" else "." ++ String.ofList rest) ++
      mark ++ Numeral.signed exponent

/-- The text of a finite double: the shortest digits that read back. -/
def floatText (x : Float) : String :=
  let negative := x.toBits.toNat / Word.bound 63 = 1
  let magnitude :=
    match Binary.ofFloat? x with
    | some b => b.shortest.text
    | none => "0.0"
  if negative then "-" ++ magnitude else magnitude

/-- The notation without exponents: all digits that stand before the point, and a point
only where digits follow it. -/
def Digits.plain (d : Digits) : String :=
  let ds := Numeral.decimal d.digits
  let point := (ds.length : Int) + d.exponent
  if 0 ≤ d.exponent then ds ++ String.ofList (List.replicate d.exponent.toNat '0')
  else if 0 < point then
    String.ofList (ds.toList.take point.toNat) ++ "." ++ String.ofList (ds.toList.drop point.toNat)
  else "0." ++ String.ofList (List.replicate (-point).toNat '0') ++ ds

/-- The text of a double for people. -/
def plainText (x : Float) : String :=
  let negative := x.toBits.toNat / Word.bound 63 = 1
  let magnitude :=
    if x.isInf then "inf"
    else
      match Binary.ofFloat? x with
      | some b => b.shortest.plain
      | none => "0"
  if x.isNaN then "NaN" else if negative then "-" ++ magnitude else magnitude

end PipelineEngine.Decimal
