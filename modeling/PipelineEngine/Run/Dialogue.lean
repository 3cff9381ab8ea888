import PipelineEngine.Journal.Entry
import PipelineEngine.Provider.Reference
import PipelineEngine.Trigger.Basic

/-!
# Dialogues

A computation that asks its surroundings for what it cannot know: the time, what a
provider answers, whether it has been cancelled.  A dialogue is either done or waits for
the answer to one request.  It is a finite tree, so what it does in any surroundings
can be followed by recursion on it (`runWith`), and it can be put aside between two
requests, so several of them can take turns.

`runWith_bind` says that a dialogue made of two runs as one after the other.
-/

namespace PipelineEngine

/-- How the wait for a provider ended. -/
inductive Reply where
  | returned (output : Payload)
  | failed (failure : ProviderFailure)
  /-- The step's own timeout came first. -/
  | timedOut
  | cancelled
  /-- The deadline of the run came first. -/
  | expired
deriving Inhabited

/-- How a pause ended. -/
inductive Wake where
  | elapsed
  | cancelled
  | expired
deriving Repr, Inhabited, DecidableEq

/-- What a dialogue can ask for. -/
inductive Request where
  /-- A new identifier. -/
  | uuid
  /-- The time of day. -/
  | now
  /-- The milliseconds on the clock that waits are measured by. -/
  | timer
  /-- Whether the dialogue has been cancelled. -/
  | isCancelled
  /-- What a provider answers within a timeout and before a deadline. -/
  | invoke (call : Call) (timeoutMs : Nat) (deadline : Option Nat)
  /-- That some time passes, before a deadline. -/
  | pause (ms : Nat) (deadline : Option Nat)
  /-- That an entry is written into the journal.  It is answered once this has been done; where
  it cannot be done there is no answer, and whoever carries the dialogue out ends it. -/
  | record (entry : JournalEntry)
  /-- That an event is delivered to all who subscribed to it. -/
  | emit (event : TableEvent)
deriving Inhabited

namespace Request

/-- The type of the answer to a request. -/
@[reducible] def Answer : Request → Type
  | .uuid => Uuid
  | .now => Instant
  | .timer => Nat
  | .isCancelled => Bool
  | .invoke .. => Reply
  | .pause .. => Wake
  | .record _ => Unit
  | .emit _ => Unit

end Request

/-- A computation that asks its surroundings. -/
inductive Dialogue (α : Type) where
  | done (a : α)
  | ask (request : Request) (next : request.Answer → Dialogue α)

namespace Dialogue

variable {α β : Type}

/-- One dialogue after another. -/
def bind : Dialogue α → (α → Dialogue β) → Dialogue β
  | .done a, f => f a
  | .ask r next, f => .ask r fun answer => (next answer).bind f

instance : Monad Dialogue where
  pure := .done
  bind := bind

/-- The dialogue of one request. -/
def request (r : Request) : Dialogue r.Answer := .ask r .done

/-- What a dialogue comes to in surroundings that answer every request at once and
remember what they like. -/
def runWith {σ : Type} (answer : (r : Request) → σ → r.Answer × σ) : Dialogue α → σ → α × σ
  | .done a, s => (a, s)
  | .ask r next, s =>
    let (a, s) := answer r s
    (next a).runWith answer s

theorem runWith_bind {σ : Type} (answer : (r : Request) → σ → r.Answer × σ) (p : Dialogue α)
    (f : α → Dialogue β) (s : σ) :
    (p.bind f).runWith answer s =
      (f (p.runWith answer s).1).runWith answer (p.runWith answer s).2 := by
  induction p generalizing s with
  | done a => rfl
  | ask r next ih => simp only [bind, runWith, ih]

/-- The requests that a dialogue makes in such surroundings, in order. -/
def requests {σ : Type} (answer : (r : Request) → σ → r.Answer × σ) :
    Dialogue α → σ → List Request
  | .done _, _ => []
  | .ask r next, s => r :: (next (answer r s).1).requests answer (answer r s).2

theorem requests_bind {σ : Type} (answer : (r : Request) → σ → r.Answer × σ) (p : Dialogue α)
    (f : α → Dialogue β) (s : σ) :
    (p.bind f).requests answer s =
      p.requests answer s ++
        (f (p.runWith answer s).1).requests answer (p.runWith answer s).2 := by
  induction p generalizing s with
  | done a => rfl
  | ask r next ih => simp only [bind, requests, runWith, ih, List.cons_append]

def uuid : Dialogue Uuid := request .uuid
def now : Dialogue Instant := request .now
def timer : Dialogue Nat := request .timer
def isCancelled : Dialogue Bool := request .isCancelled

def invoke (call : Call) (timeoutMs : Nat) (deadline : Option Nat) : Dialogue Reply :=
  request (.invoke call timeoutMs deadline)

def pause (ms : Nat) (deadline : Option Nat) : Dialogue Wake := request (.pause ms deadline)
def record (entry : JournalEntry) : Dialogue Unit := request (.record entry)
def emit (event : TableEvent) : Dialogue Unit := request (.emit event)

end Dialogue

end PipelineEngine
