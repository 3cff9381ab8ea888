import PipelineEngine.Proofs.Run.Itinerary

/-!
# Runs follow their plans

The itinerary of a run is the fold over its stages that one expects: providers are asked stage
after stage, each with the input that the outputs before it make, and what the run returns is
what has been recorded on the way.

* `Place.context_after`: the context that some legs build.
* `Runner.Chronicle.cancelled_iff`: a run has no outcome exactly when it is told to stop.
* `Runner.execute_follows_plan`: what a run does in any surroundings.
-/

namespace PipelineEngine

open Dialogue

/-! ## What legs leave behind -/

namespace Leg

/-- What an entry of a plan leaves in the context. -/
def recorded? (leg : Leg) : Option RecordedStep :=
  match leg.stage with
  | .reading _ => none
  | .planned entry => some ⟨entry.step.name, leg.output, entry.hook⟩

/-- The output that takes a position: one of an entry that is no hook. -/
def explicit? (leg : Leg) : Option Payload :=
  match leg.stage with
  | .reading _ => none
  | .planned entry => if entry.hook then none else some leg.output

end Leg

namespace Place

variable {p : Place} {legs : List Leg}

theorem context_after (p : Place) (legs : List Leg) :
    (p.after legs).context =
      { p.context with steps := p.context.steps ++ legs.filterMap Leg.recorded? } := by
  induction legs generalizing p with
  | nil => simp [after]
  | cons leg legs ih =>
    show ((p.complete leg.stage leg.output).after legs).context = _
    rw [ih]
    cases hstage : leg.stage with
    | reading parser =>
      have hnone : leg.recorded? = none := by rw [Leg.recorded?, hstage]
      rw [List.filterMap_cons_none hnone]
      rfl
    | planned entry =>
      have hsome : leg.recorded? = some ⟨entry.step.name, leg.output, entry.hook⟩ := by
        rw [Leg.recorded?, hstage]
      rw [List.filterMap_cons_some hsome]
      simp [complete, Context.record]

/-- Only entries that are no hooks take positions. -/
theorem outputAt?_after (hsteps : p.context.steps = []) (position : Nat) :
    (p.after legs).context.outputAt? position = (legs.filterMap Leg.explicit?)[position]? := by
  have hexplicit : ((legs.filterMap Leg.recorded?).filter fun s => !s.hook).map (·.output) =
      legs.filterMap Leg.explicit? := by
    rw [List.filter_filterMap, List.map_filterMap]
    congr 1
    funext leg
    rw [Leg.recorded?, Leg.explicit?]
    cases leg.stage with
    | reading parser => rfl
    | planned entry => cases hhook : entry.hook <;> simp [hhook, Option.filter]
  rw [← hexplicit, List.getElem?_map, context_after, hsteps, List.nil_append]
  rfl

end Place

namespace Runner

variable {r : Runner} {started : Instant} {done : Nat} {p : Place} {rest : List RunStage}
variable {log : List Exchange} {ending : RunEnd}

/-! ## What becomes of a run -/

/-- The provider of a stage that does not complete is asked exactly when a call of it passes
the checks, and brings no output that is small enough. -/
inductive Tries (r : Runner) (started : Instant) (done : Nat) (p : Place) (stage : RunStage)
    (log : List Exchange) : Prop
  | refused (hinvocations : invocations log = [])
      (hchecks : ∀ now call, firstTime? log = some now → call.step = stage.step →
        p.input stage = .ok call.input → ¬ r.Admits started now done call)
  | asked {call : Call} {failures : List Reply} {last : Reply}
      (hinput : p.input stage = .ok call.input)
      (hcalls : r.Calls started done stage.step call.input log call failures last)
      (hlast : ∀ output, last = .returned output → r.limits.maxPayloadBytes < output.size)

theorem tries_of_stepLog {stage : RunStage} {input : Payload} {halt : Halt}
    (hinput : p.input stage = .ok input)
    (h : r.StepLog started done stage.step input log (.halted halt)) :
    r.Tries started done p stage log := by
  cases h with
  | refused now htime hchecks hinvocations =>
    refine .refused hinvocations ?_
    intro now' call hnow hstep hcall
    obtain rfl : now = now' := Option.some.inj (htime.symm.trans hnow)
    obtain rfl : input = call.input := Except.ok.inj (hinput.symm.trans hcall)
    exact hchecks call hstep rfl
  | failed hcalls hlast =>
    obtain rfl := hcalls.input
    exact .asked hinput hcalls hlast

theorem Concludes.of_nil (h : r.Concludes started done p [] log ending) :
    log = [] ∧ ending = .completed (p.context.lastOutput?.getD p.initial) p.context := by
  cases h with
  | completed => exact ⟨rfl, rfl⟩

/-- A run that is not told to stop halts at the stage behind the legs. -/
theorem Concludes.of_cons {stage : RunStage}
    (h : r.Concludes started done p (stage :: rest) log ending) (hcancels : ¬ Cancelled log) :
    ∃ halt, ending = .halted halt p.context ∧ halt.FailsAt stage.step.name ∧
      r.Tries started done p stage log := by
  cases h with
  | unbuilt hinput hlog hfails =>
    refine ⟨_, rfl, hfails, .refused (invocations_of_idle hlog) ?_⟩
    intro now call hnow hstep hcall
    rw [hinput] at hcall
    cases hcall
  | halted hinput hstep => exact ⟨_, rfl, hstep.fails, tries_of_stepLog hinput hstep⟩
  | stopped => exact absurd ⟨_, List.mem_singleton.2 rfl, rfl⟩ hcancels
  | cancelled _ hstep =>
    cases hstep with
    | cancelled _ _ hcancelled => exact absurd hcancelled hcancels

/-! ## Runs that are told to stop -/

theorem Concludes.cancelled_iff (h : r.Concludes started done p rest log ending) :
    Cancelled log ↔ ∃ step, ending = .cancelled step := by
  cases h with
  | completed => exact iff_of_false not_cancelled_nil nofun
  | unbuilt _ hlog => exact iff_of_false (not_cancelled_of_idle hlog) nofun
  | halted _ hstep =>
    refine iff_of_false ?_ nofun
    cases hstep with
    | refused _ _ _ _ hcancels => exact hcancels
    | failed _ _ hcancels => exact hcancels
  | stopped stage => exact iff_of_true ⟨_, List.mem_singleton.2 rfl, rfl⟩ ⟨_, rfl⟩
  | cancelled _ hstep =>
    cases hstep with
    | cancelled _ _ hcancels => exact iff_of_true hcancels ⟨_, rfl⟩

theorem Itinerary.cancelled_iff {ahead : List RunStage}
    (i : r.Itinerary started done p ahead log ending) :
    Cancelled log ↔ ∃ step, ending = .cancelled step := by
  have hlegs : ¬ Cancelled (i.legs.flatMap (·.log)) := by
    rintro ⟨x, hx, hcancels⟩
    obtain ⟨leg, hleg, hx⟩ := List.mem_flatMap.1 hx
    obtain ⟨before, after, heq⟩ := List.append_of_mem hleg
    exact (i.completes before leg after heq).cancels ⟨x, hx, hcancels⟩
  rw [← i.concludes.cancelled_iff, congrArg Cancelled i.log_eq, cancelled_append_iff,
    or_iff_right hlegs]

/-- Providers are asked by the stages that complete, and by the one behind them. -/
theorem Itinerary.invocations_eq {ahead : List RunStage}
    (i : r.Itinerary started done p ahead log ending) :
    invocations log = i.legs.flatMap (fun leg => invocations leg.log) ++ invocations i.back := by
  rw [congrArg invocations i.log_eq, invocations_append]
  congr 1
  exact List.filterMap_flatMap

section
variable {label : String} {parser : Option Step} {plan : List PlannedStep} {ctx : Context}
variable {initial : Payload} {result : Except RunError Execution}
variable (c : r.Chronicle label parser plan ctx initial log result)

theorem Chronicle.cancelled_iff : Cancelled log ↔ ∃ step, c.ending = .cancelled step := by
  obtain ⟨hopening, hclosing⟩ := List.forall_mem_append.1 c.idle
  have huuid : ¬ (⟨.uuid, c.run⟩ : Exchange).Cancels := id
  have hnow : ¬ (⟨.now, c.started⟩ : Exchange).Cancels := id
  rw [← c.itinerary.cancelled_iff, congrArg Cancelled c.log_eq]
  simp only [cancelled_cons_iff, cancelled_append_iff, huuid, hnow,
    not_cancelled_of_idle hopening, not_cancelled_of_idle hclosing, false_or, or_false]

theorem Chronicle.invocations_middle : invocations log = invocations c.middle := by
  obtain ⟨hopening, hclosing⟩ := List.forall_mem_append.1 c.idle
  rw [congrArg invocations c.log_eq]
  show invocations (c.opening ++ (c.middle ++ c.closing)) = _
  rw [invocations_append, invocations_append, invocations_of_idle hopening,
    invocations_of_idle hclosing, List.nil_append, List.append_nil]

/-- Where a run is when no further stage completes. -/
def Chronicle.place : Place := Place.after ⟨ctx, initial⟩ c.itinerary.legs

theorem Chronicle.concludes : r.Concludes c.started c.itinerary.legs.length c.place
    c.itinerary.rest c.itinerary.back c.ending := by
  have hconcludes := c.itinerary.concludes
  rwa [Nat.zero_add] at hconcludes

/-- What a run has done when it comes to an execution. -/
structure Chronicle.Accounts (e : Execution) : Prop where
  /-- Providers are asked by the stages that complete, and by the one behind them. -/
  invocations_eq : invocations log =
    c.itinerary.legs.flatMap (fun leg => invocations leg.log) ++ invocations c.itinerary.back
  /-- The context holds what the entries of the plan have left, and nothing else. -/
  context_eq : e.context = { ctx with steps := c.itinerary.legs.filterMap Leg.recorded? }
  outputAt?_eq : ∀ position,
    e.context.outputAt? position = (c.itinerary.legs.filterMap Leg.explicit?)[position]?
  /-- No stage is left. -/
  succeeds : c.itinerary.rest = [] →
    invocations c.itinerary.back = [] ∧ e.outcome.success = true ∧
      (plan = [] → e.outcome.body = (c.itinerary.legs.head?.map (·.output)).getD initial) ∧
      (plan ≠ [] → e.context.lastOutput? = some e.outcome.body)
  /-- A stage fails, and none is tried behind it. -/
  fails : ∀ stage later, c.itinerary.rest = stage :: later →
    r.Tries c.started c.itinerary.legs.length c.place stage c.itinerary.back ∧
      e.outcome.success = false ∧ e.outcome.failedStep = some stage.step.name ∧
      ∃ fields, e.outcome.value = .object fields ∧ Fields.get? fields "success" = some (.bool false)

/-- Without entries there is only the parser to complete, which records nothing. -/
theorem Chronicle.place_of_nil (hplan : plan = []) :
    c.place = ⟨ctx, (c.itinerary.legs.head?.map (·.output)).getD initial⟩ := by
  have hahead := c.itinerary.ahead_eq
  rw [Chronicle.place]
  generalize c.itinerary.legs = legs at hahead ⊢
  generalize c.itinerary.rest = rest at hahead
  rw [stages, hplan, List.map_nil, List.append_nil] at hahead
  cases legs with
  | nil => rfl
  | cons leg legs =>
    cases hparser : parser.filter fun _ => initial.isRaw with
    | none =>
      rw [hparser] at hahead
      cases hahead
    | some parser =>
      rw [hparser] at hahead
      obtain ⟨hstage, hnil⟩ := List.cons.inj hahead
      obtain ⟨hlegs, -⟩ := List.append_eq_nil_iff.1 hnil.symm
      obtain rfl := List.map_eq_nil_iff.1 hlegs
      have hreading : leg.stage = .reading parser := hstage.symm
      show Place.complete ⟨ctx, initial⟩ leg.stage leg.output = _
      rw [hreading]
      rfl

/-- The entries of a plan that have completed have left an output. -/
theorem Chronicle.lastOutput?_of_ne_nil (hrest : c.itinerary.rest = []) (hplan : plan ≠ []) :
    ∃ output, c.place.context.lastOutput? = some output := by
  obtain ⟨entry, plan, rfl⟩ := List.exists_cons_of_ne_nil hplan
  have hmem : RunStage.planned entry ∈ c.itinerary.legs.map (·.stage) := by
    have hahead := c.itinerary.ahead_eq
    rw [hrest, List.append_nil] at hahead
    rw [← hahead, stages]
    simp
  obtain ⟨leg, hleg, hstage⟩ := List.mem_map.1 hmem
  have hrecorded : leg.recorded? = some ⟨entry.step.name, leg.output, entry.hook⟩ := by
    rw [Leg.recorded?, hstage]
  have hsteps : ⟨entry.step.name, leg.output, entry.hook⟩ ∈ c.place.context.steps := by
    rw [Chronicle.place, Place.context_after]
    exact List.mem_append_right _ (List.mem_filterMap.2 ⟨leg, hleg, hrecorded⟩)
  obtain ⟨last, hlast⟩ := Option.isSome_iff_exists.1
    (List.getLast?_isSome.2 (List.ne_nil_of_mem hsteps))
  exact ⟨last.output, by rw [Context.lastOutput?, hlast, Option.map_some]⟩

theorem Chronicle.context_eq (hctx : ctx.steps = []) :
    c.place.context = { ctx with steps := c.itinerary.legs.filterMap Leg.recorded? } := by
  rw [Chronicle.place, Place.context_after, hctx, List.nil_append]

/-- A run that goes through all its stages ends with the last output. -/
theorem Chronicle.accounts_of_nil (hctx : ctx.steps = []) (hrest : c.itinerary.rest = []) :
    ∃ e, result = .ok e ∧ c.Accounts e := by
  have hconcludes := c.concludes
  rw [hrest] at hconcludes
  obtain ⟨hback, hending⟩ := hconcludes.of_nil
  have hcontext := c.context_eq hctx
  refine ⟨⟨c.run, .succeeded (c.place.context.lastOutput?.getD c.place.initial), c.place.context⟩,
    ?_, ?_⟩
  · apply c.result_eq.trans
    rw [hending]
    rfl
  · refine ⟨c.invocations_middle.trans c.itinerary.invocations_eq, hcontext,
      Place.outputAt?_after hctx, ?_, ?_⟩
    · intro _
      refine ⟨by rw [hback]; rfl, rfl, ?_, ?_⟩
      · intro hplan
        have hnone : ctx.lastOutput? = none := by rw [Context.lastOutput?, hctx]; rfl
        rw [c.place_of_nil hplan]
        show ctx.lastOutput?.getD _ = _
        rw [hnone, Option.getD_none]
      · intro hplan
        obtain ⟨output, houtput⟩ := c.lastOutput?_of_ne_nil hrest hplan
        show c.place.context.lastOutput? = some (c.place.context.lastOutput?.getD _)
        rw [houtput, Option.getD_some]
    · intro stage later hcons
      rw [hrest] at hcons
      cases hcons

/-- A run that is not told to stop halts at the stage behind its legs. -/
theorem Chronicle.halted_of_cons (hcancels : ¬ Cancelled log) {stage : RunStage}
    {later : List RunStage} (hrest : c.itinerary.rest = stage :: later) :
    ∃ halt : Halt, result = .ok ⟨c.run, halt.outcome, c.place.context⟩ ∧
      halt.FailsAt stage.step.name ∧
      r.Tries c.started c.itinerary.legs.length c.place stage c.itinerary.back := by
  have hconcludes := c.concludes
  rw [hrest] at hconcludes
  have hback : ¬ Cancelled c.itinerary.back := by
    rw [c.itinerary.concludes.cancelled_iff, ← c.cancelled_iff]
    exact hcancels
  obtain ⟨halt, hending, hfails, htries⟩ := hconcludes.of_cons hback
  refine ⟨halt, c.result_eq.trans ?_, hfails, htries⟩
  rw [hending]
  rfl

theorem Chronicle.accounts_of_cons (hctx : ctx.steps = []) (hcancels : ¬ Cancelled log)
    {stage : RunStage} {later : List RunStage} (hrest : c.itinerary.rest = stage :: later) :
    ∃ e, result = .ok e ∧ c.Accounts e := by
  obtain ⟨halt, hresult, hfails, htries⟩ := c.halted_of_cons hcancels hrest
  obtain ⟨error, output, houtcome⟩ := hfails.outcome
  refine ⟨_, hresult, c.invocations_middle.trans c.itinerary.invocations_eq, c.context_eq hctx,
    Place.outputAt?_after hctx, ?_, ?_⟩
  · intro hnil
    rw [hrest] at hnil
    cases hnil
  · intro other later' hcons
    rw [hrest] at hcons
    obtain ⟨rfl, -⟩ := List.cons.inj hcons
    show _ ∧ halt.outcome.success = false ∧ halt.outcome.failedStep = _ ∧ ∃ fields,
      halt.outcome.value = .object fields ∧ _
    rw [houtcome]
    refine ⟨htries, rfl, rfl, _, rfl, ?_⟩
    rw [Fields.get?_insert, if_pos rfl]

end

/-- What a run from a context without outputs does, in any surroundings: it is told to stop, and
comes to no execution, or it asks the providers of its stages in order until one of them
fails, and returns what they have left. -/
theorem execute_follows_plan {σ : Type} (answer : (q : Request) → σ → q.Answer × σ) (r : Runner)
    (label : String) (parser : Option Step) (plan : List PlannedStep) (ctx : Context)
    (initial : Payload) (s : σ) (hctx : ctx.steps = []) :
    let log := (r.execute label parser plan ctx initial).exchanges answer s
    let result := ((r.execute label parser plan ctx initial).runWith answer s).1
    (Cancelled log → result = .error (.cancelled label)) ∧
      (¬ Cancelled log → ∃ e, result = .ok e ∧
        ∃ c : r.Chronicle label parser plan ctx initial log result, c.Accounts e) := by
  intro log result
  obtain ⟨c⟩ := chronicle_execute
    (yields_exchanges answer (r.execute label parser plan ctx initial) s)
  constructor
  · intro hcancelled
    obtain ⟨step, hending⟩ := c.cancelled_iff.1 hcancelled
    show ((r.execute label parser plan ctx initial).runWith answer s).1 = _
    rw [c.result_eq, hending]
    rfl
  · intro hcancels
    cases hrest : c.itinerary.rest with
    | nil =>
      obtain ⟨e, hresult, haccounts⟩ := c.accounts_of_nil hctx hrest
      exact ⟨e, hresult, c, haccounts⟩
    | cons stage later =>
      obtain ⟨e, hresult, haccounts⟩ := c.accounts_of_cons hctx hcancels hrest
      exact ⟨e, hresult, c, haccounts⟩

/-- A run whose parser and first step give what they are given, and whose second step fails. -/
theorem execute_follows_plan_relayed :
    (Context.start .null []).steps = [] ∧
      ∃ e, ((relayed 3 "builtin:fail" (.raw [])).runWith prompt ()).1 = .ok e ∧
        e.outcome.failedStep = some "two" ∧ e.context.steps.map (·.name) = ["one"] ∧
        ∃ c : (journaling 3).Chronicle "p" (some ⟨"read", "builtin:identity", [], none, none⟩)
            (Plan.ofSteps [⟨"one", "builtin:identity", [], none, none⟩,
              ⟨"two", "builtin:fail", [], none, none⟩]) (.start .null []) (.raw [])
            ((relayed 3 "builtin:fail" (.raw [])).exchanges prompt ())
            ((relayed 3 "builtin:fail" (.raw [])).runWith prompt ()).1,
          c.Accounts e := by
  have hctx : (Context.start .null []).steps = [] := rfl
  obtain ⟨hcancelled, haccounts⟩ := execute_follows_plan prompt (journaling 3) "p"
    (some ⟨"read", "builtin:identity", [], none, none⟩)
    (Plan.ofSteps [⟨"one", "builtin:identity", [], none, none⟩,
      ⟨"two", "builtin:fail", [], none, none⟩]) (.start .null []) (.raw []) () hctx
  obtain ⟨e, hok, hfailed, hsteps⟩ : ∃ e,
      ((relayed 3 "builtin:fail" (.raw [])).runWith prompt ()).1 = .ok e ∧
        e.outcome.failedStep = some "two" ∧ e.context.steps.map (·.name) = ["one"] :=
    ⟨_, rfl, rfl, rfl⟩
  obtain ⟨e', hok', c, hc⟩ := haccounts fun h => nomatch hok.symm.trans (hcancelled h)
  obtain rfl : e = e' := Except.ok.inj (hok.symm.trans hok')
  exact ⟨hctx, e, hok, hfailed, hsteps, c, hc⟩

end Runner

end PipelineEngine
