import PipelineEngine.Provider.Builtin
import PipelineEngine.Run.Runner

/-!
# What a dialogue may return and ask for

`MayReturn` leaves open what the surroundings answer: a dialogue may return a value if
some answers to its requests lead there.  A fact about everything that a dialogue may
return holds in all surroundings, those of `runWith` among them
(`mayReturn_runWith`).

`MayAsk` does the same for requests.  The events that a dialogue delivers are among its
requests, so a dialogue that may not ask for a delivery delivers nothing in any
surroundings (`Quiet.events_eq_nil`).

* `mayReturn_bind_iff` and `mayAsk_bind_iff` take a dialogue made of two apart.
* `Keeps` says of a dialogue what it asks for and what it returns, and `Keeps.bind` puts it
  together; `Quiet.bind` does so for what is delivered.
-/

namespace PipelineEngine

/-- The event that a request is to deliver. -/
def Request.event? : Request → Option TableEvent
  | .emit event => some event
  | _ => none

namespace Dialogue

variable {α β : Type}

/-! ## Values -/

/-- Some answers lead the dialogue to the value. -/
inductive MayReturn : Dialogue α → α → Prop
  | done (a : α) : MayReturn (.done a) a
  | ask {request : Request} {next : request.Answer → Dialogue α} {a : α}
      (answer : request.Answer) (h : MayReturn (next answer) a) : MayReturn (.ask request next) a

@[simp] theorem mayReturn_done_iff {a b : α} : (Dialogue.done a).MayReturn b ↔ b = a := by
  constructor
  · intro h
    cases h
    rfl
  · rintro rfl
    exact .done b

@[simp] theorem mayReturn_ask_iff {request : Request} {next : request.Answer → Dialogue α}
    {a : α} : (Dialogue.ask request next).MayReturn a ↔ ∃ answer, (next answer).MayReturn a := by
  constructor
  · intro h
    cases h with
    | ask answer h => exact ⟨answer, h⟩
  · rintro ⟨answer, h⟩
    exact .ask answer h

@[simp] theorem mayReturn_pure_iff {a b : α} : (pure a : Dialogue α).MayReturn b ↔ b = a :=
  mayReturn_done_iff

/-- One dialogue after another returns what the second returns after some value of the
first. -/
theorem mayReturn_bind_iff {p : Dialogue α} {f : α → Dialogue β} {b : β} :
    (p >>= f).MayReturn b ↔ ∃ a, p.MayReturn a ∧ (f a).MayReturn b := by
  show (p.bind f).MayReturn b ↔ _
  induction p with
  | done a => simp [bind]
  | ask request next ih =>
    simp only [bind, mayReturn_ask_iff, ih]
    constructor
    · rintro ⟨answer, a, ha, hb⟩
      exact ⟨a, ⟨answer, ha⟩, hb⟩
    · rintro ⟨a, ⟨answer, ha⟩, hb⟩
      exact ⟨answer, a, ha, hb⟩

/-- What a dialogue comes to in some surroundings is one of the values that it may
return. -/
theorem mayReturn_runWith {σ : Type} (answer : (r : Request) → σ → r.Answer × σ)
    (p : Dialogue α) (s : σ) : p.MayReturn (p.runWith answer s).1 := by
  induction p generalizing s with
  | done a => exact .done a
  | ask request next ih => exact .ask (answer request s).1 (ih _ _)

/-- Surroundings in which time stands still and every wait is over at once. -/
def still : (r : Request) → Unit → r.Answer × Unit
  | .uuid, _ => (default, ())
  | .now, _ => (default, ())
  | .timer, _ => (0, ())
  | .isCancelled, _ => (false, ())
  | .invoke .., _ => (.timedOut, ())
  | .pause .., _ => (.elapsed, ())
  | .record _, _ => ((), ())
  | .emit _, _ => ((), ())

/-- Surroundings in which time stands still and the built-in functions answer at once. -/
def prompt : (r : Request) → Unit → r.Answer × Unit
  | .invoke call _ _, _ =>
    match call.backend with
    | .builtin function =>
      match Builtin.call "" call.step.name function call.input with
      | .ok output => (.returned output, ())
      | .error failure => (.failed failure, ())
    | _ => (.timedOut, ())
  | request, s => still request s

/-! ## Requests -/

/-- Some answers lead the dialogue to the request. -/
inductive MayAsk : Dialogue α → Request → Prop
  | first (request : Request) (next : request.Answer → Dialogue α) :
      MayAsk (.ask request next) request
  | later {request other : Request} {next : request.Answer → Dialogue α}
      (answer : request.Answer) (h : MayAsk (next answer) other) :
      MayAsk (.ask request next) other

@[simp] theorem not_mayAsk_done (a : α) (request : Request) :
    ¬ (Dialogue.done a).MayAsk request := by
  intro h
  cases h

@[simp] theorem not_mayAsk_pure (a : α) (request : Request) :
    ¬ (pure a : Dialogue α).MayAsk request :=
  not_mayAsk_done a request

@[simp] theorem mayAsk_ask_iff {request other : Request} {next : request.Answer → Dialogue α} :
    (Dialogue.ask request next).MayAsk other ↔
      other = request ∨ ∃ answer, (next answer).MayAsk other := by
  constructor
  · intro h
    cases h with
    | first => exact Or.inl rfl
    | later answer h => exact Or.inr ⟨answer, h⟩
  · rintro (rfl | ⟨answer, h⟩)
    · exact .first _ _
    · exact .later answer h

/-- One dialogue after another asks what the first asks, or what the second asks after
some value of the first. -/
theorem mayAsk_bind_iff {p : Dialogue α} {f : α → Dialogue β} {request : Request} :
    (p >>= f).MayAsk request ↔
      p.MayAsk request ∨ ∃ a, p.MayReturn a ∧ (f a).MayAsk request := by
  show (p.bind f).MayAsk request ↔ _
  induction p with
  | done a => simp [bind]
  | ask first next ih =>
    simp only [bind, mayAsk_ask_iff, mayReturn_ask_iff, ih]
    constructor
    · rintro (h | ⟨answer, h | ⟨a, ha, h⟩⟩)
      · exact Or.inl (Or.inl h)
      · exact Or.inl (Or.inr ⟨answer, h⟩)
      · exact Or.inr ⟨a, ⟨answer, ha⟩, h⟩
    · rintro ((h | ⟨answer, h⟩) | ⟨a, ⟨answer, ha⟩, h⟩)
      · exact Or.inl h
      · exact Or.inr ⟨answer, Or.inl h⟩
      · exact Or.inr ⟨answer, Or.inr ⟨a, ha, h⟩⟩

/-- What a dialogue asks for in some surroundings is among what it may ask for. -/
theorem mayAsk_of_mem_requests {σ : Type} {answer : (r : Request) → σ → r.Answer × σ}
    {p : Dialogue α} {s : σ} {request : Request} (h : request ∈ p.requests answer s) :
    p.MayAsk request := by
  induction p generalizing s with
  | done a => cases h
  | ask first next ih =>
    rcases List.mem_cons.1 h with rfl | h
    · exact .first _ _
    · exact .later _ (ih _ h)

/-- Whatever it is answered, the dialogue asks for nothing but what is allowed, and returns
nothing but what is promised. -/
structure Keeps (allowed : Request → Prop) (p : Dialogue α) (promised : α → Prop) : Prop where
  asks : ∀ request, p.MayAsk request → allowed request
  returns : ∀ a, p.MayReturn a → promised a

section
variable {allowed : Request → Prop} {promised : α → Prop}

theorem keeps_pure {a : α} (h : promised a) : (pure a : Dialogue α).Keeps allowed promised := by
  refine ⟨fun request hrequest => absurd hrequest (not_mayAsk_pure a request), ?_⟩
  intro b hb
  obtain rfl := mayReturn_pure_iff.1 hb
  exact h

theorem keeps_request {request : Request} (h : allowed request) :
    (Dialogue.request request).Keeps allowed fun _ => True := by
  refine ⟨?_, fun _ _ => trivial⟩
  intro other hother
  rcases mayAsk_ask_iff.1 hother with rfl | ⟨answer, hdone⟩
  · exact h
  · exact absurd hdone (not_mayAsk_done answer other)

theorem Keeps.bind {p : Dialogue α} {f : α → Dialogue β} {made : β → Prop}
    (hp : p.Keeps allowed promised) (hf : ∀ a, promised a → (f a).Keeps allowed made) :
    (p >>= f).Keeps allowed made := by
  constructor
  · intro request h
    rcases mayAsk_bind_iff.1 h with h | ⟨a, ha, h⟩
    · exact hp.asks request h
    · exact (hf a (hp.returns a ha)).asks request h
  · intro b h
    obtain ⟨a, ha, hb⟩ := mayReturn_bind_iff.1 h
    exact (hf a (hp.returns a ha)).returns b hb

end

/-! ## Events -/

/-- The events that a dialogue delivers in some surroundings, in order. -/
def events {σ : Type} (answer : (r : Request) → σ → r.Answer × σ) (p : Dialogue α) (s : σ) :
    List TableEvent :=
  (p.requests answer s).filterMap Request.event?

section
variable {σ : Type} (answer : (r : Request) → σ → r.Answer × σ)

@[simp] theorem runWith_pure (a : α) (s : σ) :
    (pure a : Dialogue α).runWith answer s = (a, s) := rfl

@[simp] theorem events_pure (a : α) (s : σ) : (pure a : Dialogue α).events answer s = [] := rfl

theorem runWith_seq (p : Dialogue α) (f : α → Dialogue β) (s : σ) :
    (p >>= f).runWith answer s =
      (f (p.runWith answer s).1).runWith answer (p.runWith answer s).2 :=
  runWith_bind answer p f s

theorem requests_seq (p : Dialogue α) (f : α → Dialogue β) (s : σ) :
    (p >>= f).requests answer s =
      p.requests answer s ++ (f (p.runWith answer s).1).requests answer (p.runWith answer s).2 :=
  requests_bind answer p f s

theorem events_seq (p : Dialogue α) (f : α → Dialogue β) (s : σ) :
    (p >>= f).events answer s =
      p.events answer s ++ (f (p.runWith answer s).1).events answer (p.runWith answer s).2 := by
  rw [events, requests_seq, List.filterMap_append]
  rfl

end

/-- The dialogue delivers no event, whatever it is answered. -/
def Quiet (p : Dialogue α) : Prop := ∀ request, p.MayAsk request → request.event? = none

theorem Quiet.keeps {p : Dialogue α} (h : p.Quiet) :
    p.Keeps (fun request => request.event? = none) fun _ => True :=
  ⟨h, fun _ _ => trivial⟩

theorem quiet_pure (a : α) : (pure a : Dialogue α).Quiet :=
  fun request h => absurd h (not_mayAsk_pure a request)

theorem quiet_request {request : Request} (h : request.event? = none) :
    (Dialogue.request request).Quiet :=
  (keeps_request h).asks

theorem Quiet.bind {p : Dialogue α} {f : α → Dialogue β} (hp : p.Quiet) (hf : ∀ a, (f a).Quiet) :
    (p >>= f).Quiet :=
  (hp.keeps.bind fun a _ => (hf a).keeps).asks

/-- A dialogue that may not deliver anything delivers nothing in any surroundings. -/
theorem Quiet.events_eq_nil {p : Dialogue α} (h : p.Quiet) {σ : Type}
    (answer : (r : Request) → σ → r.Answer × σ) (s : σ) : p.events answer s = [] :=
  List.filterMap_eq_nil_iff.2 fun request hrequest => h request (mayAsk_of_mem_requests hrequest)

theorem quiet_now : Dialogue.now.Quiet := quiet_request rfl

end Dialogue

end PipelineEngine
