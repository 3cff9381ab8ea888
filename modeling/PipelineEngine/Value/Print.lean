import PipelineEngine.Decimal.Shortest
import PipelineEngine.Value.Basic

/-!
# JSON texts

The compact text of a value: no blanks between tokens, object fields in order of names,
every character of a string written as itself except the quote, the backslash
and the control characters below U+0020.

The indented text of a value has one item or field on a line, two blanks deeper than the
bracket that opens its collection.  Collections without items stay on one line.
-/

namespace PipelineEngine

namespace Number

/-- The text of a number. -/
def print : Number → String
  | .int n => Numeral.signed n
  | .float x => Decimal.floatText x

end Number

namespace Value

/-- A character inside a quoted string. -/
def escapeChar (c : Char) : List Char :=
  if c = '"' then ['\\', '"']
  else if c = '\\' then ['\\', '\\']
  else if c = '\n' then ['\\', 'n']
  else if c = '\r' then ['\\', 'r']
  else if c = '\t' then ['\\', 't']
  else if c.toNat = 8 then ['\\', 'b']
  else if c.toNat = 12 then ['\\', 'f']
  else if c.toNat < 0x20 then '\\' :: 'u' :: (Numeral.padded 16 4 c.toNat).toList
  else [c]

/-- A string in quotes. -/
def quoted (s : String) : String :=
  String.ofList ('"' :: s.toList.flatMap escapeChar ++ ['"'])

mutual

/-- The compact text of a value. -/
def print : Value → String
  | .null => "null"
  | .bool true => "true"
  | .bool false => "false"
  | .number n => n.print
  | .string s => quoted s
  | .array items => "[" ++ printItems items ++ "]"
  | .object fields => "\x7b" ++ printFields fields ++ "\x7d"

/-- The texts of array items with commas between them. -/
def printItems : List Value → String
  | [] => ""
  | [item] => item.print
  | item :: rest => item.print ++ "," ++ printItems rest

/-- The texts of object fields with commas between them. -/
def printFields : List (String × Value) → String
  | [] => ""
  | [(name, value)] => quoted name ++ ":" ++ value.print
  | (name, value) :: rest => quoted name ++ ":" ++ value.print ++ "," ++ printFields rest

end

/-! ## Indented texts -/

/-- A new line with the blanks of a depth. -/
def newLine (depth : Nat) : String := String.ofList ('\n' :: List.replicate (2 * depth) ' ')

mutual

/-- The indented text of a value at a depth. -/
def prettyAt (depth : Nat) : Value → String
  | .array [] => "[]"
  | .array items => "[" ++ prettyItems (depth + 1) items ++ newLine depth ++ "]"
  | .object [] => "\x7b\x7d"
  | .object fields => "\x7b" ++ prettyFields (depth + 1) fields ++ newLine depth ++ "\x7d"
  | .null => print .null
  | .bool b => print (.bool b)
  | .number n => print (.number n)
  | .string s => print (.string s)

/-- Array items at a depth, each on a line of its own. -/
def prettyItems (depth : Nat) : List Value → String
  | [] => ""
  | [item] => newLine depth ++ prettyAt depth item
  | item :: rest => newLine depth ++ prettyAt depth item ++ "," ++ prettyItems depth rest

/-- Object fields at a depth, each on a line of its own. -/
def prettyFields (depth : Nat) : List (String × Value) → String
  | [] => ""
  | [(name, value)] => newLine depth ++ quoted name ++ ": " ++ prettyAt depth value
  | (name, value) :: rest =>
    newLine depth ++ quoted name ++ ": " ++ prettyAt depth value ++ "," ++ prettyFields depth rest

end

/-- The indented text of a value. -/
def pretty (v : Value) : String := prettyAt 0 v

end Value

end PipelineEngine
