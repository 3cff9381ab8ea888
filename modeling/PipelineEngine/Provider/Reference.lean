import PipelineEngine.Document.Step
import PipelineEngine.Payload.Basic
import PipelineEngine.Provider.Failure
import PipelineEngine.Text.Blank
import PipelineEngine.Text.Case
import PipelineEngine.Text.Cut
import PipelineEngine.Text.Utf8

/-!
# References to images and providers

How container images are written, the other places where the logic of a step may live, and
which provider a step's invocation goes to.
-/

namespace PipelineEngine

/-! ## Image references

A container image with optional credentials and tag, written
`[user:password@]image[:tag]`.  The first `@` ends the credentials, and the first
colon in them ends the user name.  A colon after the last slash starts the tag; a
colon before it belongs to the port of a registry.
-/

/-- A user name and a password. -/
structure Credentials where
  username : String
  password : String
deriving Repr, Inhabited, DecidableEq

/-- A reference to a container image. -/
structure ImageRef where
  credentials : Option Credentials
  image : String
  tag : Option String
deriving Repr, Inhabited, DecidableEq

/-- Why a text is no provider reference. -/
inductive ProviderRefError where
  | unsupported (text : String)
  | credentials (text : String)
  | image (text : String)
  | dockerfile (text : String)
deriving Repr, DecidableEq

def ProviderRefError.message : ProviderRefError → String
  | .unsupported text => "Unsupported step provider '" ++ text ++ "'"
  | .credentials text =>
    "Provider with @ must be in the form user:pass@image:tag, got '" ++ text ++ "'"
  | .image text => "Invalid image reference '" ++ text ++ "'"
  | .dockerfile text =>
    "Dockerfile providers must be in the form file:<dir>/Dockerfile, got '" ++ text ++ "'"

namespace ImageRef

/-- The image and its tag, the latest one when none is named. -/
def reference (r : ImageRef) : String := r.image ++ ":" ++ r.tag.getD "latest"

/-- Splits the tag off an image. -/
def splitTag (s : List Char) : List Char × Option (List Char) :=
  match Text.cutLast? '/' s with
  | some (directory, name) =>
    match Text.cutLast? ':' name with
    | some (image, tag) => (directory ++ '/' :: image, some tag)
    | none => (s, none)
  | none =>
    match Text.cutLast? ':' s with
    | some (image, tag) => (image, some tag)
    | none => (s, none)

/-- Splits the credentials off a reference; neither part of them may be empty. -/
def splitCredentials (s : List Char) : Option (Option Credentials × List Char) :=
  match Text.cut? ['@'] s with
  | none => some (none, s)
  | some (before, rest) =>
    match Text.cut? [':'] before with
    | some (user, password) =>
      if user.isEmpty || password.isEmpty then none
      else some (some ⟨String.ofList user, String.ofList password⟩, rest)
    | none => none

/-- Reads an image reference. -/
def parse (text : String) : Except ProviderRefError ImageRef :=
  match splitCredentials text.toList with
  | none => .error (.credentials text)
  | some (credentials, rest) =>
    let (image, tag) := splitTag rest
    if image.isEmpty || tag == some [] then .error (.image text)
    else .ok ⟨credentials, String.ofList image, tag.map String.ofList⟩

/-- The text of an image reference. -/
def text (r : ImageRef) : String :=
  (match r.credentials with
    | some c => c.username ++ ":" ++ c.password ++ "@"
    | none => "") ++
  r.image ++
  (match r.tag with
    | some tag => ":" ++ tag
    | none => "")

end ImageRef

/-! ## Provider references

Where the logic of a step lives: a function of the engine, a container image, an
image built from a Dockerfile, or an image produced by a named builder.
-/

/-- A parsed provider reference. -/
inductive ProviderRef where
  | builtin (name : String)
  | image (image : ImageRef)
  /-- The directory of a Dockerfile. -/
  | dockerfile (directory : String)
  | custom (builder path : String)
deriving Repr, Inhabited, DecidableEq

namespace ProviderRef

/-- A text without the characters that make up its last `n` bytes. -/
def dropLastBytes (n : Nat) (s : List Char) : List Char :=
  (go n s.reverse).reverse
where
  go : Nat → List Char → List Char
    | 0, s => s
    | _, [] => []
    | n, c :: rest => go (n - c.utf8Size) rest

/-- The file name of a Dockerfile, in lower case. -/
def dockerfileName : List Char := "dockerfile".toList

/-- Whether the text ends in the name of a Dockerfile, in any letter case. -/
def endsInDockerfile (s : List Char) : Bool :=
  dockerfileName.reverse.isPrefixOf (Text.lower s).reverse

/-- Reads a reference without blanks at its ends. -/
def parseTrimmed (s : List Char) : Except ProviderRefError ProviderRef :=
  let text := String.ofList s
  match Text.dropMark? "builtin:".toList s with
  | some name => if name.isEmpty then .error (.unsupported text) else .ok (.builtin (String.ofList name))
  | none =>
    match Text.dropMark? "docker:".toList s with
    | some rest => (ImageRef.parse (String.ofList rest)).map .image
    | none =>
      if endsInDockerfile s then
        match Text.dropMark? "file:".toList s with
        | some path =>
          .ok (.dockerfile (String.ofList (dropLastBytes dockerfileName.length path)))
        | none => .error (.dockerfile text)
      else
        match Text.cut? [':'] s with
        | some (builder, path) =>
          if builder.isEmpty || path.isEmpty then .error (.unsupported text)
          else .ok (.custom (String.ofList builder) (String.ofList path))
        | none => .error (.unsupported text)

/-- Reads a reference. -/
def parse (text : String) : Except ProviderRefError ProviderRef :=
  parseTrimmed (Text.trim text.toList)

def isBuiltin : ProviderRef → Bool
  | .builtin _ => true
  | _ => false

/-- The text of a reference; credentials are left out. -/
def display : ProviderRef → String
  | .builtin name => "builtin:" ++ name
  | .image ref => "docker:" ++ ref.reference
  | .dockerfile directory => "file:" ++ directory ++ "Dockerfile"
  | .custom builder path => builder ++ ":" ++ path

end ProviderRef

/-! ## Finding a step's provider

Where a step's invocation goes: to a provider that is bound to exactly the step's
reference, to a built-in function, or to the provider of everything else.
-/

/-- What runs a step. -/
inductive Backend where
  /-- The provider bound to a reference. -/
  | bound (reference : String)
  | builtin (function : String)
  | external
deriving Repr, Inhabited, DecidableEq

/-- The providers that there are beside the built-in functions. -/
structure ProviderSet where
  /-- The references that a provider of their own is bound to. -/
  bound : List String
  /-- Whether there is a provider for everything else. -/
  external : Bool
deriving Repr, Inhabited, DecidableEq

namespace ProviderSet

/-- The built-in functions only. -/
def builtinOnly : ProviderSet := ⟨[], false⟩

/-- The provider of a step and the step's reference. -/
def resolve (p : ProviderSet) (s : Step) : Except ProviderFailure (Backend × ProviderRef) :=
  match ProviderRef.parse s.provider with
  | .error _ => .error (.unsupported s.name s.provider)
  | .ok reference =>
    let text := trimBlanks s.provider
    if text ∈ p.bound then .ok (.bound text, reference)
    else
      match reference with
      | .builtin function => .ok (.builtin function, reference)
      | _ => if p.external then .ok (.external, reference) else .error (.unsupported s.name s.provider)

end ProviderSet

/-- One invocation of a step's provider. -/
structure Call where
  step : Step
  backend : Backend
  reference : ProviderRef
  input : Payload
deriving Inhabited

end PipelineEngine
