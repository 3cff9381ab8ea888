import PipelineEngine.Proofs.Run.Invocations

/-!
# The stages of a run

A run goes through its stages, the parser of a raw payload and then the entries of the plan,
until it is through with them or one of them does not complete.

* `Runner.Itinerary`: the stages that complete and what they do, the stages that are left, and
  what becomes of the first of those.
* `Runner.itinerary_runPlan`, by induction on the plan, and `Runner.itinerary_runAll`: every
  run has an itinerary.
* `Runner.chronicle_execute`: the log of a run from its first exchange to its last.
-/

namespace PipelineEngine

open Dialogue

/-- What a run invokes a provider for. -/
inductive RunStage where
  /-- The interpretation of a raw payload. -/
  | reading (parser : Step)
  | planned (entry : PlannedStep)

namespace RunStage

def step : RunStage → Step
  | .reading parser => parser
  | .planned entry => entry.step

end RunStage

/-- The stages of a run in order: the parser, if there is one and the payload is raw, and the
entries of the plan. -/
def stages (parser : Option Step) (plan : List PlannedStep) (initial : Payload) : List RunStage :=
  (parser.filter fun _ => initial.isRaw).toList.map .reading ++ plan.map .planned

/-- Where a run is: the context that it has built and its initial payload, raw or parsed. -/
structure Place where
  context : Context
  initial : Payload

/-- A stage that completes, with what is exchanged for it and the output of its provider. -/
structure Leg where
  stage : RunStage
  log : List Exchange
  output : Payload

namespace Place

/-- The input of a stage. -/
def input (p : Place) (stage : RunStage) : Except ExpressionError Payload :=
  stage.step.buildInput p.context p.initial

/-- Where a run is once a stage has completed: the output of a parser takes the place of the
initial payload, that of an entry is recorded. -/
def complete (p : Place) (stage : RunStage) (output : Payload) : Place :=
  match stage with
  | .reading _ => { p with initial := output }
  | .planned entry => { p with context := p.context.record entry.step.name output entry.hook }

def after (p : Place) (legs : List Leg) : Place :=
  legs.foldl (fun p leg => p.complete leg.stage leg.output) p

end Place

namespace Runner

/-- A stage completes at a place, when so many others have completed before. -/
structure Completes (r : Runner) (started : Instant) (done : Nat) (p : Place) (leg : Leg) :
    Prop where
  calls : ∃ input call failures, p.input leg.stage = .ok input ∧
    r.Calls started done leg.stage.step input leg.log call failures (.returned leg.output)
  size : leg.output.size ≤ r.limits.maxPayloadBytes
  cancels : ¬ Cancelled leg.log

/-- What becomes of a run at a place where no further stage completes. -/
inductive Concludes (r : Runner) (started : Instant) (done : Nat) (p : Place) :
    List RunStage → List Exchange → RunEnd → Prop
  | completed :
    Concludes r started done p [] []
      (.completed (p.context.lastOutput?.getD p.initial) p.context)
  | unbuilt {stage : RunStage} {rest : List RunStage} {log : List Exchange} {e : ExpressionError}
      {halt : Halt} (hinput : p.input stage = .error e) (hlog : ∀ x ∈ log, x.IsIdle)
      (hfails : halt.FailsAt stage.step.name) :
    Concludes r started done p (stage :: rest) log (.halted halt p.context)
  | halted {stage : RunStage} {rest : List RunStage} {log : List Exchange} {input : Payload}
      {halt : Halt} (hinput : p.input stage = .ok input)
      (hstep : r.StepLog started done stage.step input log (.halted halt)) :
    Concludes r started done p (stage :: rest) log (.halted halt p.context)
  /-- The run is told to stop before the next stage. -/
  | stopped (stage : RunStage) (rest : List RunStage) :
    Concludes r started done p (stage :: rest) [⟨.isCancelled, true⟩] (.cancelled stage.step.name)
  | cancelled {stage : RunStage} {rest : List RunStage} {log : List Exchange} {input : Payload}
      (hinput : p.input stage = .ok input)
      (hstep : r.StepLog started done stage.step input log .cancelled) :
    Concludes r started done p (stage :: rest) log (.cancelled stage.step.name)

/-- The way of a run from a place, where so many stages have completed, through the ones ahead
of it. -/
structure Itinerary (r : Runner) (started : Instant) (done : Nat) (p : Place)
    (ahead : List RunStage) (log : List Exchange) (ending : RunEnd) where
  legs : List Leg
  rest : List RunStage
  /-- What is exchanged behind the legs. -/
  back : List Exchange
  ahead_eq : ahead = legs.map (·.stage) ++ rest
  log_eq : log = legs.flatMap (·.log) ++ back
  completes : ∀ before leg after, legs = before ++ leg :: after →
    r.Completes started (done + before.length) (p.after before) leg
  concludes : r.Concludes started (done + legs.length) (p.after legs) rest back ending

section
variable {r : Runner} {run : Uuid} {started : Instant} {done : Nat} {p : Place}
variable {ahead : List RunStage} {log : List Exchange} {ending : RunEnd}

/-- A run that goes no further. -/
def Itinerary.here (h : r.Concludes started done p ahead log ending) :
    r.Itinerary started done p ahead log ending where
  legs := []
  rest := ahead
  back := log
  ahead_eq := rfl
  log_eq := rfl
  completes := by simp
  concludes := h

/-- A stage that completes before the others. -/
def Itinerary.cons {leg : Leg} (hleg : r.Completes started done p leg)
    (i : r.Itinerary started (done + 1) (p.complete leg.stage leg.output) ahead log ending) :
    r.Itinerary started done p (leg.stage :: ahead) (leg.log ++ log) ending where
  legs := leg :: i.legs
  rest := i.rest
  back := i.back
  ahead_eq := congrArg (leg.stage :: ·) i.ahead_eq
  log_eq := (congrArg (leg.log ++ ·) i.log_eq).trans (List.append_assoc _ _ _).symm
  completes := by
    intro before other after heq
    cases before with
    | nil =>
      obtain ⟨rfl, -⟩ := List.cons.inj heq
      exact hleg
    | cons first before =>
      obtain ⟨rfl, hlegs⟩ := List.cons.inj heq
      have hother := i.completes before other after hlegs
      rwa [Nat.add_right_comm, Nat.add_assoc] at hother
  concludes := by
    have hend := i.concludes
    rwa [Nat.add_right_comm, Nat.add_assoc] at hend

/-! ## Steps of a run -/

/-- Before an entry a run is asked whether it has been cancelled. -/
theorem Calls.asked {step : Step} {input : Payload} {call : Call} {failures : List Reply}
    {last : Reply} (h : r.Calls started done step input log call failures last) :
    r.Calls started done step input (⟨.isCancelled, false⟩ :: log) call failures last :=
  ⟨h.step, h.input, h.admitted, h.invocations_eq, h.failures, h.starts⟩

theorem StepLog.asked {step : Step} {input : Payload} {ending : StepEnd}
    (h : r.StepLog started done step input log ending) :
    r.StepLog started done step input (⟨.isCancelled, false⟩ :: log) ending := by
  have hcancelled : Cancelled (⟨.isCancelled, false⟩ :: log) ↔ Cancelled log := by
    rw [cancelled_cons_iff, or_iff_right]
    exact Bool.false_ne_true
  cases h with
  | refused now htime hchecks hinvocations hcancels hstarts hfails =>
    exact .refused now htime hchecks hinvocations (mt hcancelled.1 hcancels) hstarts hfails
  | completed hcalls hsize hcancels husage =>
    exact .completed hcalls.asked hsize (mt hcancelled.1 hcancels) husage
  | failed hcalls hlast hcancels hfails =>
    exact .failed hcalls.asked hlast (mt hcancelled.1 hcancels) hfails
  | cancelled hcalls hlast hcancels => exact .cancelled hcalls.asked hlast (hcancelled.2 hcancels)

/-- A stage whose provider gives an output is followed by what is ahead of it then. -/
theorem itinerary_of_stepLog {stage : RunStage} {input output : Payload} {usage : Usage}
    {first second : List Exchange} (hinput : p.input stage = .ok input)
    (hstep : r.StepLog started done stage.step input first (.completed output usage))
    (h : Nonempty (r.Itinerary started usage.steps (p.complete stage output) ahead second ending)) :
    Nonempty (r.Itinerary started done p (stage :: ahead) (first ++ second) ending) := by
  cases hstep with
  | completed hcalls hsize hcancels husage =>
    rw [husage] at h
    obtain ⟨i⟩ := h
    have hleg : r.Completes started done p ⟨stage, first, output⟩ :=
      ⟨⟨input, _, _, hinput, hcalls⟩, hsize, hcancels⟩
    exact ⟨i.cons hleg⟩

theorem itinerary_runPlan {initial : Payload} {plan : List PlannedStep} {ctx : Context}
    {usage : Usage} (h : (r.runPlan run started initial plan ctx usage).Yields log ending) :
    Nonempty (r.Itinerary started usage.steps ⟨ctx, initial⟩ (plan.map .planned) log ending) := by
  -- What an entry leaves behind changes what the rest of the plan starts from.
  induction plan generalizing ctx usage log with
  | nil =>
    obtain ⟨rfl, rfl⟩ := yields_pure_iff.1 h
    exact ⟨.here .completed⟩
  | cons entry plan ih =>
    rw [runPlan] at h
    obtain ⟨cancelled, rest, rfl, hnext⟩ := yields_request_bind_iff.1 h
    cases cancelled with
    | true =>
      obtain ⟨rfl, rfl⟩ := yields_pure_iff.1 hnext
      exact ⟨.here (.stopped (.planned entry) _)⟩
    | false =>
      simp only [Bool.false_eq_true, if_false] at hnext
      cases hbuilt : entry.step.buildInput ctx initial with
      | error e =>
        have hinput : Place.input ⟨ctx, initial⟩ (.planned entry) = .error e := hbuilt
        simp only [hbuilt] at hnext
        obtain ⟨_, hrecord, rfl⟩ := yields_bind_pure_iff.1 hnext
        refine ⟨.here (.unbuilt hinput ?_ (.inl ⟨_, _, rfl⟩))⟩
        exact List.forall_mem_cons.2
          ⟨Exchange.isIdle_asked, idle_record .stepFailed rfl (by decide) hrecord⟩
      | ok input =>
        have hinput : Place.input ⟨ctx, initial⟩ (.planned entry) = .ok input := hbuilt
        simp only [hbuilt] at hnext
        obtain ⟨ended, first, second, hinvoke, hrest, rfl⟩ := yields_bind_iff.1 hnext
        have hstep := (stepLog_of_yields hinvoke).asked
        cases ended with
        | completed output usage' => exact itinerary_of_stepLog hinput hstep (ih hrest)
        | halted halt =>
          obtain ⟨rfl, rfl⟩ := yields_pure_iff.1 hrest
          rw [List.append_nil]
          exact ⟨.here (.halted hinput hstep)⟩
        | cancelled =>
          obtain ⟨rfl, rfl⟩ := yields_pure_iff.1 hrest
          rw [List.append_nil]
          exact ⟨.here (.cancelled hinput hstep)⟩

theorem itinerary_runAll {parser : Option Step} {plan : List PlannedStep} {ctx : Context}
    {initial : Payload}
    (h : (r.runAll run started parser plan ctx initial).Yields log ending) :
    Nonempty (r.Itinerary started 0 ⟨ctx, initial⟩ (stages parser plan initial) log ending) := by
  rw [runAll] at h
  rw [stages]
  cases hparser : parser.filter fun _ => initial.isRaw with
  | none =>
    simp only [hparser] at h
    exact itinerary_runPlan h
  | some parser =>
    simp only [hparser] at h
    cases hbuilt : parser.buildInput ctx initial with
    | error e =>
      have hinput : Place.input ⟨ctx, initial⟩ (.reading parser) = .error e := hbuilt
      simp only [hbuilt] at h
      obtain ⟨rfl, rfl⟩ := yields_pure_iff.1 h
      exact ⟨.here (.unbuilt hinput (List.forall_mem_nil _) (.inl ⟨_, _, rfl⟩))⟩
    | ok input =>
      have hinput : Place.input ⟨ctx, initial⟩ (.reading parser) = .ok input := hbuilt
      simp only [hbuilt] at h
      obtain ⟨ended, first, second, hinvoke, hrest, rfl⟩ := yields_bind_iff.1 h
      have hstep := stepLog_of_yields hinvoke
      cases ended with
      | completed output usage => exact itinerary_of_stepLog hinput hstep (itinerary_runPlan hrest)
      | halted halt =>
        obtain ⟨rfl, rfl⟩ := yields_pure_iff.1 hrest
        rw [List.append_nil]
        exact ⟨.here (.halted hinput hstep)⟩
      | cancelled =>
        obtain ⟨rfl, rfl⟩ := yields_pure_iff.1 hrest
        rw [List.append_nil]
        exact ⟨.here (.cancelled hinput hstep)⟩

end

/-! ## Whole runs -/

/-- The log of a run from its first exchange to its last, and what its caller gets. -/
structure Chronicle (r : Runner) (label : String) (parser : Option Step)
    (plan : List PlannedStep) (ctx : Context) (initial : Payload) (log : List Exchange)
    (result : Except RunError Execution) where
  run : Uuid
  started : Instant
  opening : List Exchange
  middle : List Exchange
  closing : List Exchange
  ending : RunEnd
  log_eq : log = ⟨.uuid, run⟩ :: ⟨.now, started⟩ :: (opening ++ (middle ++ closing))
  idle : ∀ x ∈ opening ++ closing, x.IsIdle
  result_eq : result = ending.result run label
  itinerary : r.Itinerary started 0 ⟨ctx, initial⟩ (stages parser plan initial) middle ending

section
variable {r : Runner} {run : Uuid} {started : Instant} {label : String} {log : List Exchange}

theorem finish_of_yields {ending : RunEnd} {result : Except RunError Execution}
    (hkind : ∀ halt ctx, ending = .halted halt ctx → halt.kind ≠ .stepStarted)
    (h : (r.finish run label ending).Yields log result) :
    (∀ x ∈ log, x.IsIdle) ∧ result = ending.result run label := by
  cases ending with
  | completed body ctx =>
    obtain ⟨_, hrecord, rfl⟩ := yields_bind_pure_iff.1 h
    exact ⟨idle_record .runCompleted rfl (by decide) hrecord, rfl⟩
  | halted halt ctx =>
    obtain ⟨_, hrecord, rfl⟩ := yields_bind_pure_iff.1 h
    exact ⟨idle_record halt.kind rfl (hkind halt ctx rfl) hrecord, rfl⟩
  | cancelled step =>
    obtain ⟨_, hrecord, rfl⟩ := yields_bind_pure_iff.1 h
    exact ⟨idle_record .runCancelled rfl (by decide) hrecord, rfl⟩

theorem Concludes.kind {done : Nat} {p : Place} {rest : List RunStage} {ending : RunEnd}
    (h : r.Concludes started done p rest log ending) :
    ∀ halt ctx, ending = .halted halt ctx → halt.kind ≠ .stepStarted := by
  intro halt ctx heq
  cases h with
  | completed | stopped | cancelled => cases heq
  | unbuilt _ _ hfails =>
    cases heq
    exact hfails.kind
  | halted _ hstep =>
    cases heq
    exact hstep.fails.kind

end

theorem chronicle_execute {r : Runner} {label : String} {parser : Option Step}
    {plan : List PlannedStep} {ctx : Context} {initial : Payload} {log : List Exchange}
    {result : Except RunError Execution}
    (h : (r.execute label parser plan ctx initial).Yields log result) :
    Nonempty (r.Chronicle label parser plan ctx initial log result) := by
  rw [execute] at h
  obtain ⟨run, _, rfl, hnow⟩ := yields_request_bind_iff.1 h
  obtain ⟨started, _, rfl, hrecord⟩ := yields_request_bind_iff.1 hnow
  obtain ⟨_, opening, _, hopening, hall, rfl⟩ := yields_bind_iff.1 hrecord
  obtain ⟨ending, middle, closing, hmiddle, hfinish, rfl⟩ := yields_bind_iff.1 hall
  obtain ⟨i⟩ := itinerary_runAll hmiddle
  obtain ⟨hclosing, hresult⟩ := finish_of_yields i.concludes.kind hfinish
  have hidle : ∀ x ∈ opening ++ closing, x.IsIdle :=
    List.forall_mem_append.2 ⟨idle_record .runStarted rfl (by decide) hopening, hclosing⟩
  exact ⟨⟨run, started, opening, middle, closing, ending, rfl, hidle, hresult, i⟩⟩

end Runner

end PipelineEngine
