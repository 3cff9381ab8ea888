import PipelineEngine.Response.Select
import PipelineEngine.Run.Runner

/-!
# Deliveries and channels

What the subscribers of an endpoint get, and how it comes to them.
-/

namespace PipelineEngine

/-! ## Deliveries

What the subscribers of an endpoint receive for an event: the outcome of the endpoint's
pipeline, run once with the event as its arguments and its payload, and the response
that the endpoint's rules make of it.
-/

/-- What the subscribers of an endpoint receive for an event. -/
structure Delivery where
  endpoint : String
  trigger : Trigger
  run : Uuid
  outcome : Outcome
  /-- The shaped response, if the endpoint has rules and one of them shapes one. -/
  response : Option Response
deriving Inhabited

namespace Delivery

/-- What is sent: the body of the response, or else that of the outcome. -/
def body (d : Delivery) : Payload :=
  match d.response with
  | some r => r.body
  | none => d.outcome.body

end Delivery

namespace Model

/-- The bindings with a source that covers an event. -/
def bindingsFor (m : Model) (trigger : Trigger) : List SubscriptionBinding :=
  m.subscriptions.filter fun b => b.sources.any (·.covers trigger)

/-- What the rules of an endpoint make of an execution, if it has rules and one of them
shapes a response. -/
def shaped? (m : Model) (endpoint : String) (e : Execution) : Option Response :=
  match m.endpoint? endpoint with
  | none => none
  | some found =>
    if found.responses.isEmpty then none
    else (Response.select endpoint found.responses e.outcome e.context).toOption

/-- Runs the pipeline of a binding for an event; none when the run has no outcome. -/
def deliver (m : Model) (r : Runner) (trigger : Trigger) (b : SubscriptionBinding) :
    Dialogue (Option Delivery) := do
  match ← r.run m b.pipeline trigger.value (.parsed trigger.value) with
  | .error _ => return none
  | .ok e => return some ⟨b.endpoint, trigger, e.run, e.outcome, m.shaped? b.endpoint e⟩

/-- The deliveries of an event, one for each binding that covers it. -/
def deliveries (m : Model) (r : Runner) (trigger : Trigger) : List (Dialogue (Option Delivery)) :=
  (m.bindingsFor trigger).map (m.deliver r trigger)

end Model

/-! ## Channels

The deliveries of one endpoint on their way to its receivers.  Each receiver gets every
delivery that was sent after it joined, once and in order.  A channel keeps the newest
deliveries up to its capacity, so a receiver that waits for too long loses the oldest.
-/

/-- The deliveries of an endpoint and who receives them. -/
structure Channel where
  /-- The number of deliveries that were sent to anyone. -/
  sent : Nat
  /-- The newest of them, the oldest first. -/
  kept : List Delivery
  /-- The receivers, and how many of the deliveries sent each has no longer to get. -/
  receivers : List (Nat × Nat)
deriving Inhabited

namespace Channel

/-- A channel to nobody. -/
def empty : Channel := ⟨0, [], []⟩

/-- The number of deliveries that a channel keeps: a power of two. -/
def keeps (capacity : Nat) : Nat := (max capacity 1).nextPowerOfTwo

/-- Adds a receiver, who gets what is sent from now on. -/
def join (c : Channel) (receiver : Nat) : Channel :=
  { c with receivers := c.receivers ++ [(receiver, c.sent)] }

/-- Removes a receiver. -/
def leave (c : Channel) (receiver : Nat) : Channel :=
  { c with receivers := c.receivers.filter (·.1 ≠ receiver) }

/-- Sends a delivery to every receiver; without receivers it is dropped. -/
def send (c : Channel) (capacity : Nat) (d : Delivery) : Channel :=
  if c.receivers.isEmpty then c
  else
    let kept := c.kept ++ [d]
    { c with sent := c.sent + 1, kept := kept.drop (kept.length - keeps capacity) }

/-- What waits for a receiver: the number of deliveries that it has lost, and those that
it gets. -/
def pending (c : Channel) (receiver : Nat) : Nat × List Delivery :=
  match c.receivers.lookup receiver with
  | none => (0, [])
  | some seen =>
    let oldest := c.sent - c.kept.length
    (oldest - seen, c.kept.drop (seen - oldest))

/-- Gives a receiver all that waits for it. -/
def receive (c : Channel) (receiver : Nat) : (Nat × List Delivery) × Channel :=
  (c.pending receiver,
    { c with receivers := c.receivers.map fun (n, seen) =>
        if n = receiver then (n, c.sent) else (n, seen) })

end Channel

end PipelineEngine
