import PipelineEngine.Subscription.Channel

/-!
# The router

The channels of all subscription endpoints.  An event runs the pipeline of each endpoint
that it concerns once; the delivery that comes out is handed to whoever has subscribed
to the endpoint by then.
-/

namespace PipelineEngine

/-- The channels of endpoints. -/
structure Router where
  /-- The number of deliveries that a slow receiver can fall behind. -/
  capacity : Nat
  channels : Fields Channel
  /-- The number of receivers that there have been. -/
  issued : Nat
deriving Inhabited

/-- Whoever receives the deliveries of an endpoint. -/
structure Receiver where
  endpoint : String
  number : Nat
deriving Repr, Inhabited, DecidableEq

/-- The result of routing an event to an endpoint. -/
structure PublishReport where
  endpoint : String
  run : Uuid
  success : Bool
  /-- The receivers that the delivery was handed to. -/
  receivers : Nat
deriving Repr, Inhabited, DecidableEq

/-- Why an endpoint cannot be subscribed to. -/
inductive RouteError where
  | unknownEndpoint (endpoint : String)
  | notSubscription (endpoint : String)
deriving Repr, Inhabited, DecidableEq

def RouteError.message : RouteError → String
  | .unknownEndpoint endpoint => "Unknown endpoint '" ++ endpoint ++ "'"
  | .notSubscription endpoint => "Endpoint '" ++ endpoint ++ "' is not a subscription endpoint"

namespace Router

/-- A router whose channels have a capacity. -/
def ofCapacity (capacity : Nat) : Router := ⟨capacity, [], 0⟩

/-- The channel of an endpoint. -/
def channel (r : Router) (endpoint : String) : Channel := (r.channels.get? endpoint).getD .empty

/-- Replaces the channel of an endpoint. -/
def withChannel (r : Router) (endpoint : String) (c : Channel) : Router :=
  { r with channels := r.channels.insert endpoint c }

/-- Subscribes to an endpoint of the model in force. -/
def subscribe (r : Router) (m : Model) (endpoint : String) :
    Except RouteError (Receiver × Router) :=
  match m.endpoint? endpoint with
  | none => .error (.unknownEndpoint endpoint)
  | some e =>
    if e.isSubscription then
      .ok (⟨endpoint, r.issued⟩,
        { r.withChannel endpoint ((r.channel endpoint).join r.issued) with issued := r.issued + 1 })
    else .error (.notSubscription endpoint)

/-- Ends a subscription. -/
def unsubscribe (r : Router) (receiver : Receiver) : Router :=
  r.withChannel receiver.endpoint ((r.channel receiver.endpoint).leave receiver.number)

/-- The number of receivers of an endpoint. -/
def subscribers (r : Router) (endpoint : String) : Nat := (r.channel endpoint).receivers.length

/-- Gives a receiver all that waits for it: the number of deliveries that it has lost,
and those that it gets. -/
def receive (r : Router) (receiver : Receiver) : (Nat × List Delivery) × Router :=
  let (pending, c) := (r.channel receiver.endpoint).receive receiver.number
  (pending, r.withChannel receiver.endpoint c)

/-- Hands a delivery to the receivers of its endpoint. -/
def hand (r : Router) (d : Delivery) : PublishReport × Router :=
  (⟨d.endpoint, d.run, d.outcome.success, r.subscribers d.endpoint⟩,
    r.withChannel d.endpoint ((r.channel d.endpoint).send r.capacity d))

/-- Hands out deliveries in the order in which they were finished, and reports on each. -/
def handAll (r : Router) : List Delivery → List PublishReport × Router
  | [] => ([], r)
  | d :: rest =>
    let (report, r) := r.hand d
    let (reports, r) := r.handAll rest
    (report :: reports, r)

end Router

end PipelineEngine
