import PipelineEngine.Text.Blank
import PipelineEngine.Text.Case
import PipelineEngine.Text.Cut
import PipelineEngine.Text.Utf8
import PipelineEngine.Value.Print
import PipelineEngine.Value.Read
import PipelineEngine.Yaml.Read

/-!
# Payloads

What flows into and out of a step: a value, or bytes that nothing has
interpreted yet.  The payload of a request is made of its body, as the content type
says.
-/

namespace PipelineEngine

/-- The data handed to a step or returned by one. -/
inductive Payload where
  | parsed (value : Value)
  | raw (bytes : List UInt8)
deriving Inhabited

namespace Payload

/-- The payload of nothing. -/
def empty : Payload := .parsed .null

def isRaw : Payload → Bool
  | .parsed _ => false
  | .raw _ => true

/-- The payload as a value; bytes count as a string, with U+FFFD where they are
not UTF-8. -/
def value : Payload → Value
  | .parsed v => v
  | .raw bytes => .string (Utf8.decodeLossy bytes)

/-- The bytes handed to an external provider: the compact text of a value, raw
bytes as they are. -/
def bytes : Payload → List UInt8
  | .parsed v => Utf8.encode v.print
  | .raw bytes => bytes

/-- The size that payload limits count: the number of bytes, none for null. -/
def size : Payload → Nat
  | .parsed .null => 0
  | .parsed v => Utf8.size v.print.toList
  | .raw bytes => bytes.length

end Payload

end PipelineEngine

/-! ## Interpreting request bodies

The payload of a body under a content type.  JSON, YAML and plain text are read;
any other type leaves the bytes alone.  An empty body without a type is null, and
so is an empty JSON body.
-/

namespace PipelineEngine.Payload

/-- A content type without its parameters, in lower case. -/
def essence (contentType : Option String) : String :=
  match contentType with
  | some text => lowerCase (trimBlanks ((piecesText ';' text).headD text))
  | none => ""

/-- What a content type says about a body. -/
inductive Format where
  | json
  | yaml
  | text
  | other
deriving Repr, DecidableEq

/-- The format of an essence. -/
def Format.ofEssence (essence : String) : Format :=
  if essence ∈ ["application/json", "text/json"] then .json
  else if essence ∈ ["application/yaml", "application/x-yaml", "text/yaml"] then .yaml
  else if essence = "text/plain" then .text
  else .other

/-- A body that is not what its content type says. -/
structure Malformed where
  contentType : String
deriving Repr, DecidableEq

/-- The payload of a body. -/
def interpret (bytes : List UInt8) (contentType : Option String) : Except Malformed Payload :=
  let kind := essence contentType
  let parsed (v : Option Value) : Except Malformed Payload :=
    match v with
    | some v => .ok (.parsed v)
    | none => .error ⟨kind⟩
  if bytes.isEmpty && kind.isEmpty then .ok (.parsed .null)
  else
    match Format.ofEssence kind with
    | .json => if bytes.isEmpty then .ok (.parsed .null) else parsed (Value.readBytes? bytes)
    | .yaml => parsed ((Yaml.readBytes? bytes).bind Node.asValue)
    | .text => parsed ((Utf8.decode? bytes).map .string)
    | .other => .ok (.raw bytes)

end PipelineEngine.Payload
