import PipelineEngine.Provider.Builtin
import PipelineEngine.Run.Runner

/-!
# Simulated surroundings

Surroundings for dialogues in which nothing takes real time and providers follow a
script.  The clock that waits are measured by stands still until nobody can go on; then
it jumps to the next moment at which somebody can.

`Dialogue.advance` takes a dialogue to its next wait, and `Wait.poll?` says when the wait
is over.  Of several ends that come at one moment, cancellation is seen first, then the
provider's answer, the step's timeout and the deadline of the run.
-/

namespace PipelineEngine

namespace Simulation

/-- On whose behalf a dialogue runs.  To cancel an owner is to cancel all that runs on
its behalf. -/
inductive Owner where
  /-- The caller, who waits for the dialogue. -/
  | caller
  /-- The jobs. -/
  | jobs
  /-- The router, which delivers events. -/
  | router
  /-- The store, which nobody cancels. -/
  | store
deriving Repr, Inhabited, DecidableEq

/-- What a scripted provider does in the end. -/
inductive ScriptedEnd where
  | hang
  | unreachable (message : String)
  | fail (message : String) (exitCode : Option Int) (output : Option Value)
  | output (payload : Payload)
  /-- Gives its input back. -/
  | echo
deriving Inhabited

/-- One response of a scripted provider. -/
structure ScriptedResponse where
  /-- Whether it cancels an owner first. -/
  cancels : Bool
  delayMs : Nat
  result : ScriptedEnd
deriving Inhabited

/-- The responses of a provider: one for each call, the last one for all that follow. -/
abbrev Script := List ScriptedResponse

/-- The response to call number `n`, counted from zero. -/
def Script.response (s : Script) (n : Nat) : ScriptedResponse :=
  (s[n]?.or s.getLast?).getD ⟨false, 0, .echo⟩

/-- A call of a scripted provider. -/
structure CallRecord where
  atMs : Nat
  step : String
  provider : String
  input : Payload
deriving Inhabited

/-- Simulated surroundings. -/
structure World where
  /-- The time of day, which does not change. -/
  time : Instant
  timer : Nat
  /-- The scripts of providers, by the reference that they are bound to. -/
  scripts : Fields Script
  /-- The owner that scripts cancel. -/
  scriptOwner : Owner
  /-- How often each scripted provider was called. -/
  counts : Fields Nat
  /-- The calls of scripted providers, the latest first. -/
  calls : List CallRecord
  cancelled : List Owner
  /-- The number of identifiers given out. -/
  serial : Nat
  /-- The journal, the latest event first. -/
  journal : List RunEvent
deriving Inhabited

namespace World

/-- The reference that stands for the provider of everything that no other provider
runs. -/
def externalReference : String := "*"

/-- Surroundings in which nothing has happened. -/
def start (time : Instant) (scripts : Fields Script) (scriptOwner : Owner) : World :=
  ⟨time, 0, scripts, scriptOwner, [], [], [], 0, []⟩

/-- The providers that the scripts stand for. -/
def providers (w : World) : ProviderSet :=
  ⟨w.scripts.names, w.scripts.has externalReference⟩

def isCancelled (w : World) (t : Owner) : Bool := t ∈ w.cancelled

def cancel (w : World) (t : Owner) : World := { w with cancelled := t :: w.cancelled }

/-- Takes back the cancellation of an owner. -/
def renew (w : World) (t : Owner) : World := { w with cancelled := w.cancelled.filter (· ≠ t) }

/-- A new identifier. -/
def uuid (w : World) : Uuid × World :=
  (Uuid.ofNat (w.serial + 1), { w with serial := w.serial + 1 })

/-- The journal with one more event. -/
def write (w : World) (entry : JournalEntry) : World :=
  let (id, w) := w.uuid
  { w with journal := entry.stamp id w.time :: w.journal }

/-- The end of a scripted response, none when it never ends. -/
def scriptedReply (call : Call) : ScriptedEnd → Option Reply
  | .hang => none
  | .unreachable message => some (.failed (.unreachable call.step.name message))
  | .fail message exitCode output =>
    some (.failed (.failed call.step.name exitCode message output))
  | .output payload => some (.returned payload)
  | .echo => some (.returned call.input)

/-- Calls a scripted provider: after how long it answers, and what. -/
def callScript (w : World) (reference : String) (call : Call) : Nat × Option Reply × World :=
  let n := (w.counts.get? reference).getD 0
  let response := ((w.scripts.get? reference).getD []).response n
  let w := { w with
    counts := w.counts.insert reference (n + 1)
    calls := ⟨w.timer, call.step.name, call.reference.display, call.input⟩ :: w.calls }
  let w := if response.cancels then w.cancel w.scriptOwner else w
  (response.delayMs, scriptedReply call response.result, w)

/-- Calls a provider. -/
def call (w : World) (call : Call) : Nat × Option Reply × World :=
  match call.backend with
  | .bound reference => w.callScript reference call
  | .external => w.callScript externalReference call
  | .builtin function =>
    match Builtin.call w.time.offsetText call.step.name function call.input with
    | .ok output => (0, some (.returned output), w)
    | .error failure => (0, some (.failed failure), w)

/-- Whether a deadline has come. -/
def isPast (w : World) (deadline : Option Nat) : Bool := deadline.any (· ≤ w.timer)

end World

/-- What a dialogue waits for. -/
inductive Wait (α : Type) where
  /-- A provider, which answers at a time or never. -/
  | reply (answer : Option (Nat × Reply)) (timeout : Nat) (deadline : Option Nat)
      (next : Reply → Dialogue α)
  /-- The end of a pause. -/
  | pause (stop : Nat) (deadline : Option Nat) (next : Wake → Dialogue α)
  /-- Its turn, after all others that can go on. -/
  | turn (next : Dialogue α)
  /-- The delivery of an event. -/
  | delivery (event : TableEvent) (next : Dialogue α)
  /-- The end of some tasks. -/
  | tasks (numbers : List Nat) (next : Dialogue α)

/-- Where a dialogue stands: at its end or before a wait. -/
inductive Stage (α : Type) where
  | done (a : α)
  | waiting (wait : Wait α)

end Simulation

open Simulation in
/-- Takes a dialogue to its end or to its next wait. -/
def Dialogue.advance {α : Type} (owner : Simulation.Owner) :
    Dialogue α → World → Stage α × World
  | .done a, w => (.done a, w)
  | .ask .uuid next, w => let (id, w) := w.uuid; (next id).advance owner w
  | .ask .now next, w => (next w.time).advance owner w
  | .ask .timer next, w => (next w.timer).advance owner w
  | .ask .isCancelled next, w => (next (w.isCancelled owner)).advance owner w
  | .ask (.invoke call timeoutMs deadline) next, w =>
    if w.isCancelled owner then (next .cancelled).advance owner w
    else
      match w.call call with
      | (0, some reply, w) => (next reply).advance owner w
      | (delay, reply, w) =>
        if timeoutMs = 0 then (next .timedOut).advance owner w
        else if w.isPast deadline then (next .expired).advance owner w
        else
          (.waiting (.reply (reply.map (w.timer + delay, ·)) (w.timer + timeoutMs) deadline next), w)
  | .ask (.pause ms deadline) next, w =>
    if w.isCancelled owner then (next .cancelled).advance owner w
    else if ms = 0 then (next .elapsed).advance owner w
    else if w.isPast deadline then (next .expired).advance owner w
    else (.waiting (.pause (w.timer + ms) deadline next), w)
  | .ask (.record entry) next, w => (.waiting (.turn (next ())), w.write entry)
  | .ask (.emit event) next, w => (.waiting (.delivery event (next ())), w)

namespace Simulation.Wait

variable {α : Type}

/-- How a dialogue goes on, when its wait is over.  `running` are the tasks that have not
come to an end. -/
def poll? (owner : Owner) (w : World) (running : List Nat) : Wait α → Option (Dialogue α)
  | .reply answer timeout deadline next =>
    if w.isCancelled owner then some (next .cancelled)
    else
      match answer.filter fun (t, _) => t ≤ w.timer with
      | some (_, got) => some (next got)
      | none =>
        if timeout ≤ w.timer then some (next .timedOut)
        else if w.isPast deadline then some (next .expired)
        else none
  | .pause stop deadline next =>
    if w.isCancelled owner then some (next .cancelled)
    else if stop ≤ w.timer then some (next .elapsed)
    else if w.isPast deadline then some (next .expired)
    else none
  | .turn next => some next
  | .delivery _ _ => none
  | .tasks numbers next => if numbers.all fun n => !running.contains n then some next else none

/-- The times at which the wait can end by itself. -/
def alarms : Wait α → List Nat
  | .reply answer timeout deadline _ =>
    (answer.map (·.1)).toList ++ timeout :: deadline.toList
  | .pause stop deadline _ => stop :: deadline.toList
  | _ => []

end Simulation.Wait

end PipelineEngine
