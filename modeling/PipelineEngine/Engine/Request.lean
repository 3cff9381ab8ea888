import PipelineEngine.Payload.Basic
import PipelineEngine.Response.Select
import PipelineEngine.Run.Runner

/-!
# Answering requests

A request is answered by the endpoint of its key: its body is interpreted once, the
endpoint's pipeline runs on it, and the endpoint's rules shape the response.  A pipeline
that fails is no error; its outcome reaches the rules like any other.
-/

namespace PipelineEngine

/-- Why a request has no response. -/
inductive RequestError where
  | unknownEndpoint (endpoint : String)
  /-- The endpoint delivers events and takes no requests. -/
  | subscriptionOnly (endpoint : String)
  | payload (error : Payload.Malformed)
  | run (error : RunError)
  | select (error : SelectError)

namespace RequestError

/-- The message of an error; none where it is the message of a reader. -/
def message : RequestError → Option String
  | .unknownEndpoint endpoint => some ("Unknown endpoint '" ++ endpoint ++ "'")
  | .subscriptionOnly endpoint =>
    some ("Endpoint '" ++ endpoint ++ "' delivers subscription events and takes no requests")
  | .payload _ => none
  | .run error => some error.message
  | .select error => some error.message

/-- The status that an error is answered with. -/
def status : RequestError → Nat
  | .unknownEndpoint _ => 404
  | .subscriptionOnly _ => 405
  | .payload _ => 400
  | .run (.cancelled _) => 503
  | .run _ => 500
  | .select error => error.status

end RequestError

namespace Endpoint

/-- The response to an outcome: the rules shape it, and without rules it is the body of
the outcome. -/
def respond (e : Endpoint) (key : String) (o : Outcome) (ctx : Context) :
    Except SelectError Response :=
  if e.responses.isEmpty then .ok ⟨if o.success then 200 else 500, o.body⟩
  else Response.select key e.responses o ctx

/-- What the pipeline of an endpoint makes of a payload; without a pipeline the payload is
the outcome. -/
def outcome (e : Endpoint) (m : Model) (r : Runner) (args : Value) (initial : Payload) :
    Dialogue (Except RunError (Outcome × Context)) :=
  match e.pipeline with
  | some pipeline => do
    return (← r.run m pipeline args initial).map fun execution =>
      (execution.outcome, execution.context)
  | none => return .ok (.succeeded initial, .start args m.env)

end Endpoint

/-- The endpoint that answers requests for a key. -/
def Model.requestEndpoint (m : Model) (key : String) : Except RequestError Endpoint :=
  match m.endpoint? key with
  | none => .error (.unknownEndpoint key)
  | some e => if e.isSubscription then .error (.subscriptionOnly key) else .ok e

/-- Answers a request.  The type that the endpoint accepts comes before the type that the
request names. -/
def Model.answer (m : Model) (r : Runner) (key : String) (body : List UInt8)
    (contentType : Option String) (args : Value) : Dialogue (Except RequestError Response) :=
  match m.requestEndpoint key with
  | .error e => return .error e
  | .ok endpoint =>
    match Payload.interpret body (endpoint.accepts.or contentType) with
    | .error e => return .error (.payload e)
    | .ok initial => do
      match ← endpoint.outcome m r args initial with
      | .error e => return .error (.run e)
      | .ok (outcome, ctx) => return (endpoint.respond key outcome ctx).mapError .select

end PipelineEngine
