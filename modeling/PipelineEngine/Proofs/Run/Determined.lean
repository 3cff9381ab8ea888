import PipelineEngine.Proofs.Run.Attempts
import PipelineEngine.Proofs.Run.Followed

/-!
# Runs with providers that are functions

When what a provider gives is a function of the step and its input, nothing but the time and a
request to stop can make two runs through the same stages come to different ends.

* `Runner.Gives`: what a stage passes on, without a word about time.
* `Runner.Passes`: a way through all stages, one output after another.
* `Runner.Itinerary.passes_iff`: whatever a run has done so far lies on the way that there is.
* `Runner.execute_agrees`: two runs whose contexts differ in nothing that is read.
-/

namespace PipelineEngine

open Dialogue

/-! ## Providers as functions -/

/-- What providers give to the steps that ask them. -/
abbrev Providing := Step → Payload → AttemptResult

/-- The reply that brings a result. -/
def Reply.ofResult : AttemptResult → Reply
  | .ok output => .returned output
  | .error failure => .failed failure

/-- The provider was not waited for until its end. -/
def Reply.IsCut : Reply → Prop
  | .timedOut | .cancelled | .expired => True
  | .returned _ | .failed _ => False

/-- The reply brings a result, unless the provider was not waited for. -/
def Reply.Brings (reply : Reply) (result : AttemptResult) : Prop :=
  reply.IsCut ∨ reply = .ofResult result

/-- The call asks the provider that its step resolves to. -/
def Call.IsFor (call : Call) (providers : ProviderSet) : Prop :=
  providers.resolve call.step = .ok (call.backend, call.reference)

/-- All that the providers reply in a log is what a function gives. -/
def Follows (providers : ProviderSet) (provide : Providing) (log : List Exchange) : Prop :=
  ∀ call reply, (call, reply) ∈ invocations log → call.IsFor providers →
    reply.Brings (provide call.step call.input)

/-- Providers reply what a function gives, whatever else their surroundings remember. -/
def ProvidesBy {σ : Type} (answer : (r : Request) → σ → r.Answer × σ) (providers : ProviderSet)
    (provide : Providing) : Prop :=
  ∀ (call : Call) (timeoutMs : Nat) (deadline : Option Nat) (x : σ), call.IsFor providers →
    Reply.Brings (answer (.invoke call timeoutMs deadline) x).1 (provide call.step call.input)

theorem ProvidesBy.follows {σ α : Type} {answer : (r : Request) → σ → r.Answer × σ}
    {providers : ProviderSet} {provide : Providing} (h : ProvidesBy answer providers provide)
    (p : Dialogue α) (x : σ) : Follows providers provide (p.exchanges answer x) := by
  induction p generalizing x with
  | done a => exact fun call reply hmem => absurd hmem List.not_mem_nil
  | ask request next ih =>
    intro call reply hmem
    rw [exchanges, invocations, List.filterMap_cons] at hmem
    cases request with
    | invoke asked timeoutMs deadline =>
      rcases List.mem_cons.1 hmem with heq | hmem
      · obtain ⟨rfl, rfl⟩ := Prod.mk.inj heq
        exact h call timeoutMs deadline x
      · exact ih _ _ call reply hmem
    | uuid | now | timer | isCancelled | pause | record | emit => exact ih _ _ call reply hmem

/-- What the built-in functions give. -/
def builtins (providers : ProviderSet) : Providing := fun step input =>
  match providers.resolve step with
  | .ok (.builtin function, _) => Builtin.call "" step.name function input
  | _ => .error default

/-- The built-in functions are functions, where time stands still. -/
theorem providesBy_prompt (providers : ProviderSet) :
    ProvidesBy prompt providers (builtins providers) := by
  intro call timeoutMs deadline x hfor
  obtain ⟨step, backend, reference, input⟩ := call
  rw [builtins, hfor]
  cases backend with
  | builtin function =>
    refine .inr ?_
    dsimp only [prompt]
    cases Builtin.call "" step.name function input <;> rfl
  | bound | external => exact .inl trivial

/-- Nothing disturbs a run: it is not told to stop, its providers are waited for, and whenever it
asks for the time some of its own is left. -/
structure Undisturbed (limits : SafetyLimits) (started : Instant) (log : List Exchange) : Prop where
  cancels : ¬ Cancelled log
  waits : ∀ call reply, (call, reply) ∈ invocations log → ¬ reply.IsCut
  time : ∀ x ∈ log, ∀ now ∈ x.time?,
    Runner.elapsedMs started now / 1000 < limits.runTimeoutSeconds

section
variable {providers : ProviderSet} {provide : Providing} {limits : SafetyLimits}
variable {started : Instant}
variable {log log' : List Exchange} {call : Call} {reply : Reply}

theorem invocations_subset (h : log' ⊆ log) : invocations log' ⊆ invocations log :=
  List.filterMap_subset _ h

theorem Follows.of_subset (h : Follows providers provide log) (hsubset : log' ⊆ log) :
    Follows providers provide log' :=
  fun call reply hmem => h call reply (invocations_subset hsubset hmem)

theorem Undisturbed.of_subset (h : Undisturbed limits started log) (hsubset : log' ⊆ log) :
    Undisturbed limits started log' where
  cancels := fun ⟨x, hx, hcancels⟩ => h.cancels ⟨x, hsubset hx, hcancels⟩
  waits := fun call reply hmem => h.waits call reply (invocations_subset hsubset hmem)
  time := fun x hx => h.time x (hsubset hx)

/-- A provider that is waited for gives its result. -/
theorem Follows.reply_eq (h : Follows providers provide log)
    (hmem : (call, reply) ∈ invocations log) (hfor : call.IsFor providers) (hcut : ¬ reply.IsCut) :
    reply = .ofResult (provide call.step call.input) :=
  (h call reply hmem hfor).resolve_left hcut

/-- An output is always the one that the function gives. -/
theorem Follows.provide_eq (h : Follows providers provide log) {output : Payload}
    (hmem : (call, .returned output) ∈ invocations log) (hfor : call.IsFor providers) :
    provide call.step call.input = .ok output := by
  have hreply := h.reply_eq hmem hfor id
  cases hgives : provide call.step call.input with
  | ok given =>
    rw [hgives] at hreply
    rw [Reply.returned.inj hreply]
  | error failure =>
    rw [hgives] at hreply
    cases hreply

theorem mem_of_firstTime? {now : Instant} (h : firstTime? log = some now) :
    ∃ x ∈ log, x.time? = some now := by
  rw [firstTime?, List.findSome?_eq_some_iff] at h
  obtain ⟨before, x, after, rfl, hx, -⟩ := h
  exact ⟨x, List.mem_append_right before List.mem_cons_self, hx⟩

end

/-! ## Ways through the stages -/

namespace Runner

/-- A stage passes an output on at a place, when so many others have completed before: it is
within the limits but for the time, and the function gives the output. -/
structure Gives (r : Runner) (provide : Providing) (done : Nat) (p : Place) (stage : RunStage)
    (output : Payload) : Prop where
  steps : done < r.limits.maxSteps
  given : ∃ input, p.input stage = .ok input ∧ input.size ≤ r.limits.maxPayloadBytes ∧
    provide stage.step input = .ok output
  provider : ∃ found, r.providers.resolve stage.step = .ok found
  size : output.size ≤ r.limits.maxPayloadBytes

/-- The stages ahead of a place pass their outputs on one after another, up to the last place. -/
inductive Passes (r : Runner) (provide : Providing) : Nat → Place → List RunStage → Place → Prop
  | here (done : Nat) (p : Place) : Passes r provide done p [] p
  | stage {done : Nat} {p q : Place} {stage : RunStage} {rest : List RunStage} {output : Payload}
      (hgives : r.Gives provide done p stage output)
      (hrest : Passes r provide (done + 1) (p.complete stage output) rest q) :
    Passes r provide done p (stage :: rest) q

variable {r : Runner} {provide : Providing} {started : Instant} {done : Nat} {p q : Place}
variable {stage : RunStage} {rest : List RunStage} {log : List Exchange} {ending : RunEnd}

theorem Gives.unique {output output' : Payload} (h : r.Gives provide done p stage output)
    (h' : r.Gives provide done p stage output') : output = output' := by
  obtain ⟨input, hinput, -, hgives⟩ := h.given
  obtain ⟨input', hinput', -, hgives'⟩ := h'.given
  obtain rfl := Except.ok.inj (hinput.symm.trans hinput')
  exact Except.ok.inj (hgives.symm.trans hgives')

theorem passes_cons_iff {output : Payload} (h : r.Gives provide done p stage output) :
    r.Passes provide done p (stage :: rest) q ↔
      r.Passes provide (done + 1) (p.complete stage output) rest q := by
  constructor
  · intro hpasses
    cases hpasses with
    | stage hgives hrest =>
      obtain rfl := h.unique hgives
      exact hrest
  · exact .stage h

/-- Stages that are known to pass outputs on can be left out in front. -/
theorem passes_legs_iff {legs : List Leg}
    (h : ∀ before leg after, legs = before ++ leg :: after →
      r.Gives provide (done + before.length) (p.after before) leg.stage leg.output) :
    r.Passes provide done p (legs.map (·.stage) ++ rest) q ↔
      r.Passes provide (done + legs.length) (p.after legs) rest q := by
  induction legs generalizing done p with
  | nil => exact Iff.rfl
  | cons leg legs ih =>
    have hleg : r.Gives provide done p leg.stage leg.output := h [] leg legs rfl
    -- The other legs start where the first one leaves the run, with one more step done.
    have hlegs : ∀ before other after, legs = before ++ other :: after →
        r.Gives provide (done + 1 + before.length)
          ((p.complete leg.stage leg.output).after before) other.stage other.output := by
      rintro before other after rfl
      have hother := h (leg :: before) other after rfl
      rwa [List.length_cons, ← Nat.add_assoc, Nat.add_right_comm] at hother
    rw [List.map_cons, List.cons_append, passes_cons_iff hleg, ih hlegs, List.length_cons,
      Nat.add_assoc, Nat.add_comm 1]
    rfl

/-! ## Runs on their way -/

/-- What is replied last is among the replies. -/
theorem Calls.last_mem {step : Step} {input : Payload} {call : Call} {failures : List Reply}
    {last : Reply} (h : r.Calls started done step input log call failures last) :
    (call, last) ∈ invocations log := by
  rw [h.invocations_eq, List.map_append]
  exact List.mem_append_right _ List.mem_cons_self

/-- A stage that completes passes its output on. -/
theorem Completes.gives {leg : Leg} (h : r.Completes started done p leg)
    (hfollows : Follows r.providers provide leg.log) :
    r.Gives provide done p leg.stage leg.output := by
  obtain ⟨input, call, failures, hinput, hcalls⟩ := h.calls
  obtain ⟨now, -, hadmits⟩ := hcalls.admitted
  have hgives := hfollows.provide_eq hcalls.last_mem hadmits.provider
  obtain rfl := hcalls.input
  rw [hcalls.step] at hgives
  exact ⟨hadmits.steps, ⟨_, hinput, hadmits.size, hgives⟩,
    ⟨_, hcalls.step ▸ hadmits.provider⟩, h.size⟩

/-- A step that nothing disturbs completes when it has an output to pass on. -/
theorem StepLog.not_gives {input output : Payload} {stepEnd : StepEnd}
    (h : r.StepLog started done stage.step input log stepEnd)
    (hend : ∀ output usage, stepEnd ≠ .completed output usage) (hinput : p.input stage = .ok input)
    (hfollows : Follows r.providers provide log) (hundisturbed : Undisturbed r.limits started log) :
    ¬ r.Gives provide done p stage output := by
  intro hgives
  obtain ⟨input', hinput', hsize, hprovide⟩ := hgives.given
  obtain rfl := Except.ok.inj (hinput.symm.trans hinput')
  obtain ⟨⟨backend, reference⟩, hresolve⟩ := hgives.provider
  cases h with
  | refused now htime hchecks =>
    -- All checks but the one of the time would let the provider be asked, and there is time.
    obtain ⟨x, hx, hnow⟩ := mem_of_firstTime? htime
    exact hchecks ⟨stage.step, backend, reference, input⟩ rfl rfl
      ⟨hgives.steps, hundisturbed.time x hx now hnow, hsize, hresolve⟩
  | completed => exact absurd rfl (hend _ _)
  | @failed call failures last halt hcalls hlast =>
    obtain ⟨now, -, hadmits⟩ := hcalls.admitted
    have hreply := hfollows.reply_eq hcalls.last_mem hadmits.provider
      (hundisturbed.waits _ _ hcalls.last_mem)
    rw [hcalls.step, hcalls.input, hprovide] at hreply
    exact absurd hgives.size (Nat.not_le.2 (hlast output hreply))
  | cancelled _ _ hcancels => exact hundisturbed.cancels hcancels

theorem Concludes.not_gives {output : Payload}
    (h : r.Concludes started done p (stage :: rest) log ending)
    (hfollows : Follows r.providers provide log) (hundisturbed : Undisturbed r.limits started log) :
    ¬ r.Gives provide done p stage output := by
  cases h with
  | unbuilt hinput =>
    intro hgives
    obtain ⟨input, hok, -⟩ := hgives.given
    rw [hinput] at hok
    cases hok
  | stopped => exact absurd ⟨_, List.mem_singleton.2 rfl, rfl⟩ hundisturbed.cancels
  | halted hinput hstep => exact hstep.not_gives nofun hinput hfollows hundisturbed
  | cancelled hinput hstep => exact hstep.not_gives nofun hinput hfollows hundisturbed

section
variable {ahead : List RunStage} (i : r.Itinerary started done p ahead log ending)
include i

theorem Itinerary.gives (hfollows : Follows r.providers provide log) (before : List Leg) (leg : Leg)
    (after : List Leg) (heq : i.legs = before ++ leg :: after) :
    r.Gives provide (done + before.length) (p.after before) leg.stage leg.output := by
  refine (i.completes before leg after heq).gives (hfollows.of_subset ?_)
  intro x hx
  have hleg : leg ∈ i.legs := heq ▸ List.mem_append_right before List.mem_cons_self
  rw [i.log_eq]
  exact List.mem_append_left _ (List.mem_flatMap.2 ⟨leg, hleg, hx⟩)

/-- A way through the stages goes through those that have completed. -/
theorem Itinerary.passes_iff (hfollows : Follows r.providers provide log) :
    r.Passes provide done p ahead q ↔
      r.Passes provide (done + i.legs.length) (p.after i.legs) i.rest q := by
  have hlegs : r.Passes provide done p (i.legs.map (·.stage) ++ i.rest) q ↔ _ :=
    passes_legs_iff (i.gives hfollows)
  rwa [← i.ahead_eq] at hlegs

/-- A run that nothing disturbs goes on as long as there is a way. -/
theorem Itinerary.rest_eq_nil (hfollows : Follows r.providers provide log)
    (hundisturbed : Undisturbed r.limits started log) (hpasses : r.Passes provide done p ahead q) :
    i.rest = [] := by
  have hback : i.back ⊆ log := by
    intro x hx
    rw [i.log_eq]
    exact List.mem_append_right _ hx
  have hrest := (i.passes_iff hfollows).1 hpasses
  have hconcludes := i.concludes
  generalize i.rest = stages at hrest hconcludes ⊢
  cases hrest with
  | here => rfl
  | stage hgives =>
    exact absurd hgives (hconcludes.not_gives (hfollows.of_subset hback)
      (hundisturbed.of_subset hback))

end

/-! ## What is not read -/

end Runner

namespace Place

/-- The place of a run with other arguments. -/
def withArgs (p : Place) (args : Value) : Place := { p with context := { p.context with args } }

/-- What a run that gets here ends with. -/
def body (p : Place) : Payload := p.context.lastOutput?.getD p.initial

theorem complete_withArgs (p : Place) (args : Value) (stage : RunStage) (output : Payload) :
    (p.withArgs args).complete stage output = (p.complete stage output).withArgs args := by
  cases stage <;> rfl

theorem args_complete (p : Place) (stage : RunStage) (output : Payload) :
    (p.complete stage output).context.args = p.context.args := by
  cases stage <;> rfl

end Place

namespace Runner

variable {r : Runner} {provide : Providing} {done : Nat} {p q : Place} {ahead : List RunStage}
variable {args args' : Value}

/-- The input of a stage is the same with either arguments. -/
def Confuses (args args' : Value) (stage : RunStage) : Prop :=
  ∀ p : Place, p.context.args = args → (p.withArgs args').input stage = p.input stage

/-- A way with arguments is one with others that no stage tells from them. -/
theorem Passes.withArgs (h : r.Passes provide done p ahead q) (hargs : p.context.args = args)
    (hconfuses : ∀ stage ∈ ahead, Confuses args args' stage) :
    r.Passes provide done (p.withArgs args') ahead (q.withArgs args') := by
  induction h with
  | here => exact .here _ _
  | @stage done p q stage rest output hgives hrest ih =>
    obtain ⟨hstage, hothers⟩ := List.forall_mem_cons.1 hconfuses
    have hgives' : r.Gives provide done (p.withArgs args') stage output :=
      ⟨hgives.steps, (hstage p hargs).symm ▸ hgives.given, hgives.provider, hgives.size⟩
    refine .stage hgives' ?_
    rw [Place.complete_withArgs]
    exact ih ((p.args_complete stage output).trans hargs) hothers

/-! ## Whole runs -/

section
variable {label : String} {parser : Option Step} {plan : List PlannedStep} {ctx : Context}
variable {initial : Payload} {log : List Exchange} {result : Except RunError Execution}
variable (c : r.Chronicle label parser plan ctx initial log result)
include c

theorem Chronicle.middle_subset : c.middle ⊆ log := by
  intro x hx
  rw [c.log_eq]
  simp only [List.mem_cons, List.mem_append]
  exact .inr (.inr (.inr (.inl hx)))

theorem Chronicle.firstTime? : firstTime? log = some c.started := by
  exact congrArg PipelineEngine.firstTime? c.log_eq

/-- A run that succeeds has gone through all stages. -/
theorem Chronicle.passes_of_success (hfollows : Follows r.providers provide log) {e : Execution}
    (hresult : result = .ok e) (hsuccess : e.outcome.success = true) :
    ∃ q, r.Passes provide 0 ⟨ctx, initial⟩ (stages parser plan initial) q ∧
      e.outcome.body = q.body := by
  have hmiddle := hfollows.of_subset c.middle_subset
  have hconcludes := c.concludes
  have hpasses := c.itinerary.passes_iff (q := c.place) hmiddle
  rw [Nat.zero_add] at hpasses
  cases hrest : c.itinerary.rest with
  | nil =>
    rw [hrest] at hconcludes hpasses
    obtain ⟨-, hending⟩ := hconcludes.of_nil
    have hok := c.result_eq.symm.trans hresult
    rw [hending] at hok
    cases hok
    exact ⟨c.place, hpasses.2 (.here _ _), rfl⟩
  | cons stage later =>
    have hcancels : ¬ Cancelled log := by
      intro hcancelled
      obtain ⟨step, hending⟩ := c.cancelled_iff.1 hcancelled
      have hok := c.result_eq.symm.trans hresult
      rw [hending] at hok
      cases hok
    obtain ⟨halt, hok, hfails, -⟩ := c.halted_of_cons hcancels hrest
    obtain ⟨error, output, houtcome⟩ := hfails.outcome
    obtain rfl := Except.ok.inj (hresult.symm.trans hok)
    rw [houtcome] at hsuccess
    cases hsuccess

/-- A run that nothing disturbs succeeds when there is a way through all stages. -/
theorem Chronicle.success_of_passes (hfollows : Follows r.providers provide log)
    (hundisturbed : Undisturbed r.limits c.started log)
    (hpasses : r.Passes provide 0 ⟨ctx, initial⟩ (stages parser plan initial) q) :
    ∃ e, result = .ok e ∧ e.outcome.success = true := by
  have hrest := c.itinerary.rest_eq_nil (hfollows.of_subset c.middle_subset)
    (hundisturbed.of_subset c.middle_subset) hpasses
  have hconcludes := c.concludes
  rw [hrest] at hconcludes
  obtain ⟨-, hending⟩ := hconcludes.of_nil
  refine ⟨⟨c.run, .succeeded c.place.body, c.place.context⟩, c.result_eq.trans ?_, rfl⟩
  rw [hending]
  rfl

end

theorem Passes.unique {ahead : List RunStage} {q' : Place} (h : r.Passes provide done p ahead q)
    (h' : r.Passes provide done p ahead q') : q = q' := by
  induction h with
  | here =>
    cases h'
    rfl
  | stage hgives _ ih => exact ih ((passes_cons_iff hgives).1 h')

/-- Two runs through the same stages, with arguments that no stage tells apart: when the first one
succeeds the second one does, unless something disturbs it, and ends with the same. -/
theorem execute_agrees {label label' : String} {parser : Option Step} {plan : List PlannedStep}
    {ctx : Context} {initial : Payload} {log log' : List Exchange}
    {result : Except RunError Execution} {e : Execution}
    (h : (r.execute label parser plan ctx initial).Yields log (.ok e))
    (h' : (r.execute label' parser plan { ctx with args := args' } initial).Yields log' result)
    (hfollows : Follows r.providers provide log) (hfollows' : Follows r.providers provide log')
    (hconfuses : ∀ stage ∈ stages parser plan initial, Confuses ctx.args args' stage)
    (hsuccess : e.outcome.success = true) :
    ((∀ started ∈ firstTime? log', Undisturbed r.limits started log') →
      ∃ e', result = .ok e' ∧ e'.outcome.success = true) ∧
    ∀ e', result = .ok e' → e'.outcome.success = true → e'.outcome.body = e.outcome.body := by
  obtain ⟨c⟩ := chronicle_execute h
  obtain ⟨c'⟩ := chronicle_execute h'
  obtain ⟨q, hpasses, hbody⟩ := c.passes_of_success hfollows rfl hsuccess
  have hpasses' := hpasses.withArgs rfl hconfuses
  refine ⟨fun hundisturbed => ?_, fun e' hresult' hsuccess' => ?_⟩
  · exact c'.success_of_passes hfollows' (hundisturbed _ c'.firstTime?) hpasses'
  · obtain ⟨q', hway, hbody'⟩ := c'.passes_of_success hfollows' hresult' hsuccess'
    obtain rfl := hway.unique hpasses'
    exact hbody'.trans hbody.symm

end Runner

end PipelineEngine
