import PipelineEngine.Engine.Basic
import PipelineEngine.Journal.Lines

/-!
# Reports on errors

What a caller is told about an error: its kind, which is the name of its cause, a message
for people, and details.  The message is missing where it would be that of a reader of some
format.
-/

namespace PipelineEngine

/-- What is told about an error. -/
structure Report where
  kind : String
  message : Option String
  details : List (String × Value)
deriving Inhabited

namespace Report

/-- A report without details. -/
def ofMessage (kind message : String) : Report := ⟨kind, some message, []⟩

def toValue (r : Report) : Value :=
  let message := r.message.map fun m => ("message", Value.string m)
  .ofPairs (("error", .string r.kind) :: (message.toList ++ r.details))

end Report

/-- Errors that can be reported. -/
class Reportable (ε : Type) where
  report : ε → Report

export Reportable (report)

namespace Report

/-- The value of a text that may be missing. -/
def optional (s : Option String) : Value := .ofOption (s.map .string)

end Report

/-! ## Expressions and responses -/

instance : Reportable ExpressionError where
  report e :=
    .ofMessage (match e with | .malformed .. => "Syntax" | .unresolved _ => "Unresolved") e.message

instance : Reportable UnresolvedReference where
  report e := report (ExpressionError.unresolved e)

instance : Reportable YieldError where
  report e := .ofMessage "Yield" e.message

namespace SelectError

/-- The kind of a select error. -/
def kind : SelectError → String
  | .noMatch _ => "NoMatch"
  | .expression .. => "Expression"
  | .yield .. => "Yield"

end SelectError

instance : Reportable SelectError where
  report e := ⟨e.kind, some e.message, [("status", .nat e.status)]⟩

/-! ## Providers -/

instance : Reportable ProviderRefError where
  report e :=
    .ofMessage (match e with
      | .unsupported _ => "Unsupported"
      | .credentials _ => "Credentials"
      | .image _ => "Image"
      | .dockerfile _ => "Dockerfile") e.message

namespace ProviderFailure

/-- The kind of a failure. -/
def kind : ProviderFailure → String
  | .timeout .. => "Timeout"
  | .unreachable .. => "Unreachable"
  | .failed .. => "Failed"
  | .unsupported .. => "Unsupported"
  | .cancelled _ => "Cancelled"

/-- What is told of a failure of the step itself. -/
def exitDetails : ProviderFailure → List (String × Value)
  | .failed _ code _ output => [
      ("exit_code", .ofOption (code.map .int)),
      ("output", .ofOption (output.map fun v => .ofPairs [("value", v)]))]
  | _ => []

end ProviderFailure

instance : Reportable ProviderFailure where
  report e := ⟨e.kind, some e.message, ("transient", .bool e.isTransient) :: e.exitDetails⟩

/-! ## Documents and models -/

instance : Reportable Payload.Malformed where
  report e := ⟨"Malformed", none, [("content_type", .string e.contentType)]⟩

instance : Reportable DefaultError where
  report e := .ofMessage "ColumnDefault" e.message

instance : Reportable SourceError where
  report e := .ofMessage "Source" e.message

instance : Reportable ScheduleError where
  report e :=
    .ofMessage (match e with
      | .invalidTimestamp .. => "InvalidTimestamp"
      | .unknownInterval _ => "UnknownInterval"
      | .invalidFrequency .. => "InvalidFrequency"
      | .endBeforeStart => "EndBeforeStart") e.message

namespace ConfigFault

/-- The kind of a fault. -/
def kind : ConfigFault → String
  | .duplicateName .. => "DuplicateName"
  | .reservedStepName .. => "ReservedStepName"
  | .unresolvedForeignKey .. => "UnresolvedForeignKey"
  | .unknownPipeline .. => "UnknownPipeline"
  | .missingPipeline .. => "MissingPipeline"
  | .unknownTable .. => "UnknownTable"
  | .unknownColumn .. => "UnknownColumn"
  | .expression .. => "Expression"
  | .forwardReference .. => "ForwardReference"
  | .invalidReference .. => "InvalidReference"
  | .invalidYield .. => "InvalidYield"
  | .provider .. => "Provider"
  | .unknownBuilder .. => "UnknownBuilder"
  | .subscription .. => "Subscription"
  | .schedule .. => "Schedule"
  | .columnDefault .. => "ColumnDefault"

end ConfigFault

instance : Reportable ConfigFault where
  report e := .ofMessage e.kind e.message

instance : Reportable (List ConfigFault) where
  report faults :=
    ⟨"ConfigErrors", some (ConfigFault.report faults),
      [("errors", .array (faults.map fun f => (report f).toValue))]⟩

/-! ## Runs, rows and endpoints -/

instance : Reportable SafetyViolation where
  report e :=
    .ofMessage (match e with
      | .maxSteps .. => "MaxSteps"
      | .maxPayloadBytes .. => "MaxPayloadBytes"
      | .runTimeout .. => "RunTimeout") e.message

instance : Reportable RunError where
  report e :=
    .ofMessage (match e with
      | .cancelled _ => "Cancelled"
      | .unknownPipeline _ => "UnknownPipeline") e.message

instance : Reportable TransformError where
  report
    | .run e => report e
    | e => .ofMessage "TransformFailed" e.message

instance : Reportable StoreError where
  report
    | .transform e => report e
    | e =>
      .ofMessage (match e with
        | .unknownTable _ => "UnknownTable"
        | .unknownColumn .. => "UnknownColumn"
        | .notNull .. => "NotNull"
        | .duplicateKey .. => "DuplicateKey"
        | .missingReference .. => "MissingReference"
        | .restricted .. => "Restricted"
        | .transform _ => "TransformFailed"
        | .shortId _ => "Sqid") e.message

instance : Reportable Journal.MalformedLine where
  report e := .ofMessage "Journal" (e.message Journal.fileName)

instance : Reportable InvalidNode where
  report e := .ofMessage "InvalidNode" e.message

instance : Reportable RequestError where
  report e :=
    let kind :=
      match e with
      | .unknownEndpoint _ => "UnknownEndpoint"
      | .subscriptionOnly _ => "SubscriptionOnly"
      | .payload _ => "Payload"
      | .run e => (report e).kind
      | .select e => e.kind
    ⟨kind, e.message, [("status", .nat e.status)]⟩

instance : Reportable RouteError where
  report e :=
    .ofMessage (match e with
      | .unknownEndpoint _ => "UnknownEndpoint"
      | .notSubscription _ => "NotSubscription") e.message

end PipelineEngine
