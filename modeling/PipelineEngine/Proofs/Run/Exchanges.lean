import PipelineEngine.Proofs.Run.Requests

/-!
# What a dialogue and its surroundings say to each other

The log of a dialogue holds every request together with its answer.  `Yields` leaves open
what the surroundings answer, as `MayReturn` does, and says which logs lead to which values,
so that a fact about all logs of a dialogue is one about all surroundings.

* `yields_bind_iff` takes the log of a dialogue made of two apart.
* `yields_exchanges`: in any surroundings a dialogue comes to what its log leads to.
-/

namespace PipelineEngine

/-- A request and its answer. -/
structure Exchange where
  request : Request
  answer : request.Answer

namespace Dialogue

variable {α β : Type}

/-- The answers in the log lead the dialogue through it to the value. -/
inductive Yields : Dialogue α → List Exchange → α → Prop
  | done (a : α) : Yields (.done a) [] a
  | ask {request : Request} {next : request.Answer → Dialogue α} {log : List Exchange} {a : α}
      (answer : request.Answer) (h : Yields (next answer) log a) :
    Yields (.ask request next) (⟨request, answer⟩ :: log) a

variable {log : List Exchange}

@[simp] theorem yields_done_iff {a b : α} :
    (Dialogue.done a).Yields log b ↔ log = [] ∧ b = a := by
  constructor
  · intro h
    cases h
    exact ⟨rfl, rfl⟩
  · rintro ⟨rfl, rfl⟩
    exact .done b

@[simp] theorem yields_pure_iff {a b : α} :
    (pure a : Dialogue α).Yields log b ↔ log = [] ∧ b = a :=
  yields_done_iff

theorem yields_ask_iff {request : Request} {next : request.Answer → Dialogue α} {a : α} :
    (Dialogue.ask request next).Yields log a ↔
      ∃ answer rest, log = ⟨request, answer⟩ :: rest ∧ (next answer).Yields rest a := by
  constructor
  · intro h
    cases h with
    | ask answer h => exact ⟨answer, _, rfl, h⟩
  · rintro ⟨answer, rest, rfl, h⟩
    exact .ask answer h

@[simp] theorem yields_request_iff {request : Request} {answer : request.Answer} :
    (Dialogue.request request).Yields log answer ↔ log = [⟨request, answer⟩] := by
  rw [Dialogue.request, yields_ask_iff]
  simp only [yields_done_iff]
  constructor
  · rintro ⟨_, _, rfl, rfl, rfl⟩
    rfl
  · rintro rfl
    exact ⟨answer, [], rfl, rfl, rfl⟩

/-- One dialogue after another leaves the log of the first and then that of the second. -/
theorem yields_bind_iff {p : Dialogue α} {f : α → Dialogue β} {b : β} :
    (p >>= f).Yields log b ↔
      ∃ a first second, p.Yields first a ∧ (f a).Yields second b ∧ log = first ++ second := by
  show (p.bind f).Yields log b ↔ _
  induction p generalizing log with
  | done a =>
    constructor
    · intro h
      exact ⟨a, [], log, .done a, h, rfl⟩
    · rintro ⟨_, _, second, ha, hb, rfl⟩
      obtain ⟨rfl, rfl⟩ := yields_done_iff.1 ha
      exact hb
  | ask request next ih =>
    simp only [bind, yields_ask_iff, ih]
    constructor
    · rintro ⟨answer, _, rfl, a, first, second, ha, hb, rfl⟩
      exact ⟨a, ⟨request, answer⟩ :: first, second, ⟨answer, first, rfl, ha⟩, hb, rfl⟩
    · rintro ⟨a, _, second, ⟨answer, first, rfl, ha⟩, hb, rfl⟩
      exact ⟨answer, first ++ second, rfl, a, first, second, ha, hb, rfl⟩

/-- A dialogue that makes something of the value of another one. -/
theorem yields_bind_pure_iff {p : Dialogue α} {f : α → β} {b : β} :
    (p >>= fun a => pure (f a)).Yields log b ↔ ∃ a, p.Yields log a ∧ b = f a := by
  rw [yields_bind_iff]
  constructor
  · rintro ⟨a, first, _, ha, hb, rfl⟩
    obtain ⟨rfl, rfl⟩ := yields_pure_iff.1 hb
    rw [List.append_nil]
    exact ⟨a, ha, rfl⟩
  · rintro ⟨a, ha, rfl⟩
    exact ⟨a, log, [], ha, .done _, (List.append_nil log).symm⟩

/-- A dialogue that starts with a request. -/
theorem yields_request_bind_iff {request : Request} {f : request.Answer → Dialogue β} {b : β} :
    (Dialogue.request request >>= f).Yields log b ↔
      ∃ answer rest, log = ⟨request, answer⟩ :: rest ∧ (f answer).Yields rest b :=
  yields_ask_iff

/-- What a dialogue may return, some log leads it to. -/
theorem MayReturn.exists_yields {p : Dialogue α} {a : α} (h : p.MayReturn a) :
    ∃ log, p.Yields log a := by
  induction h with
  | done a => exact ⟨[], .done a⟩
  | ask answer _ ih =>
    obtain ⟨log, hlog⟩ := ih
    exact ⟨_, .ask answer hlog⟩

/-- The log of a dialogue in some surroundings. -/
def exchanges {σ : Type} (answer : (r : Request) → σ → r.Answer × σ) :
    Dialogue α → σ → List Exchange
  | .done _, _ => []
  | .ask r next, s =>
    ⟨r, (answer r s).1⟩ :: (next (answer r s).1).exchanges answer (answer r s).2

theorem yields_exchanges {σ : Type} (answer : (r : Request) → σ → r.Answer × σ) (p : Dialogue α)
    (s : σ) : p.Yields (p.exchanges answer s) (p.runWith answer s).1 := by
  induction p generalizing s with
  | done a => exact .done a
  | ask request next ih => exact .ask (answer request s).1 (ih _ _)

end Dialogue

/-! ## What a log tells -/

/-- A provider that is asked, and what it replies. -/
def Exchange.invocation? : Exchange → Option (Call × Reply)
  | ⟨.invoke call _ _, reply⟩ => some (call, reply)
  | _ => none

/-- A time of day that is told. -/
def Exchange.time? : Exchange → Option Instant
  | ⟨.now, time⟩ => some time
  | _ => none

/-- The dialogue is told to stop: it is asked for, or a wait ends with it. -/
def Exchange.Cancels : Exchange → Prop
  | ⟨.isCancelled, cancelled⟩ => cancelled = true
  | ⟨.invoke .., reply⟩ =>
    match reply with
    | .failed failure => failure.isCancelled = true
    | .cancelled => True
    | .returned _ | .timedOut | .expired => False
  | ⟨.pause .., wake⟩ => wake = .cancelled
  | ⟨.uuid, _⟩ | ⟨.now, _⟩ | ⟨.timer, _⟩ | ⟨.record _, _⟩ | ⟨.emit _, _⟩ => False

/-- The start of a step is written into the journal. -/
def Exchange.starts : Exchange → Bool
  | ⟨.record entry, _⟩ => entry.kind = .stepStarted
  | _ => false

/-- An exchange that neither asks a provider nor cancels anything, and starts no step. -/
structure Exchange.IsIdle (x : Exchange) : Prop where
  invocation? : x.invocation? = none
  cancels : ¬ x.Cancels
  starts : x.starts = false

/-- The invocations of providers, in order. -/
def invocations (log : List Exchange) : List (Call × Reply) := log.filterMap Exchange.invocation?

/-- The time that is told first. -/
def firstTime? (log : List Exchange) : Option Instant := log.findSome? Exchange.time?

/-- Somewhere in the log the dialogue is told to stop. -/
def Cancelled (log : List Exchange) : Prop := ∃ x ∈ log, x.Cancels

section
variable {log log' : List Exchange} {x : Exchange}

@[simp] theorem invocations_append :
    invocations (log ++ log') = invocations log ++ invocations log' :=
  List.filterMap_append

@[simp] theorem cancelled_append_iff :
    Cancelled (log ++ log') ↔ Cancelled log ∨ Cancelled log' := by
  simp only [Cancelled, List.mem_append, or_and_right, exists_or]

@[simp] theorem cancelled_cons_iff : Cancelled (x :: log) ↔ x.Cancels ∨ Cancelled log := by
  simp [Cancelled]

@[simp] theorem not_cancelled_nil : ¬ Cancelled [] := by
  simp [Cancelled]

theorem Exchange.isIdle_now (time : Instant) : (⟨.now, time⟩ : Exchange).IsIdle := ⟨rfl, id, rfl⟩

/-- Going on is nothing, unlike being told to stop. -/
theorem Exchange.isIdle_asked : (⟨.isCancelled, false⟩ : Exchange).IsIdle :=
  ⟨rfl, Bool.false_ne_true, rfl⟩

theorem Exchange.isIdle_timer (ms : Nat) : (⟨.timer, ms⟩ : Exchange).IsIdle := ⟨rfl, id, rfl⟩

theorem Exchange.isIdle_pause (ms : Nat) (deadline : Option Nat) {wake : Wake}
    (h : wake ≠ .cancelled) : (⟨.pause ms deadline, wake⟩ : Exchange).IsIdle :=
  ⟨rfl, h, rfl⟩

theorem Exchange.isIdle_record {entry : JournalEntry} (h : entry.kind ≠ .stepStarted) :
    (⟨.record entry, ()⟩ : Exchange).IsIdle :=
  ⟨rfl, id, decide_eq_false h⟩

theorem invocations_of_idle (h : ∀ x ∈ log, x.IsIdle) : invocations log = [] :=
  List.filterMap_eq_nil_iff.2 fun x hx => (h x hx).invocation?

theorem not_cancelled_of_idle (h : ∀ x ∈ log, x.IsIdle) : ¬ Cancelled log := by
  rintro ⟨x, hx, hcancels⟩
  exact (h x hx).cancels hcancels

theorem countP_starts_of_idle (h : ∀ x ∈ log, x.IsIdle) : log.countP Exchange.starts = 0 := by
  apply List.countP_eq_zero.2
  intro x hx
  rw [(h x hx).starts]
  exact Bool.false_ne_true

end

end PipelineEngine
