import PipelineEngine.Proofs.Model.Resolved
import PipelineEngine.Proofs.Model.Slots
import PipelineEngine.Proofs.Run.Followed

/-!
# Positions in the context of a run

Whatever hooks stand around the steps of a pipeline, the outputs of the steps take the positions
in the context, one after another as the steps complete.

* `Leg.ran?`: the explicit step that a leg is, with its output.
* `Hooks.plan_numbers_steps`: how hooks and steps follow each other in a plan, and what any run of
  it has in its context at every moment.
-/

namespace PipelineEngine

open Dialogue

/-- The explicit step of a stage. -/
def RunStage.explicit? : RunStage → Option Step
  | .reading _ => none
  | .planned entry => if entry.hook then none else some entry.step

/-- The explicit step that a leg is, with its output. -/
def Leg.ran? (leg : Leg) : Option (Step × Payload) :=
  leg.stage.explicit?.map fun step => (step, leg.output)

theorem Leg.explicit?_eq (leg : Leg) : leg.explicit? = leg.ran?.map (·.2) := by
  rw [explicit?, ran?]
  cases leg.stage with
  | reading parser => rfl
  | planned entry => cases hhook : entry.hook <;> simp [RunStage.explicit?, hhook]

/-- The legs have run so many of the steps from the first one on, and the context has their outputs
at their positions and nothing at others. -/
structure HasRun (steps : List Step) (legs : List Leg) (ctx : Context) : Prop where
  steps_eq : (legs.filterMap Leg.ran?).map (·.1) = steps.take (legs.filterMap Leg.ran?).length
  position_eq : ctx.position = (legs.filterMap Leg.ran?).length
  outputAt?_eq : ∀ i, ctx.outputAt? i = (legs.filterMap Leg.ran?)[i]?.map (·.2)

/-! ## The steps of the stages -/

theorem filterMap_explicit?_planned (plan : List PlannedStep) :
    (plan.map RunStage.planned).filterMap RunStage.explicit? =
      (plan.filter fun entry => !entry.hook).map (·.step) := by
  rw [List.filterMap_map, ← List.filterMap_eq_map', List.filterMap_filter]
  congr 1
  funext entry
  cases hhook : entry.hook <;> simp [RunStage.explicit?, hhook]

/-- The stages of a run hold the explicit steps in order. -/
theorem filterMap_explicit?_stages (h : Hooks) (steps : List Step) (parser : Option Step)
    (initial : Payload) :
    (stages parser (h.plan steps) initial).filterMap RunStage.explicit? = steps := by
  have hreading : ((parser.filter fun _ => initial.isRaw).toList.map RunStage.reading).filterMap
      RunStage.explicit? = [] := by
    rw [List.filterMap_map]
    exact List.filterMap_eq_nil_iff.2 fun _ _ => rfl
  rw [stages, List.filterMap_append, hreading, List.nil_append, filterMap_explicit?_planned,
    Hooks.explicit_plan, Plan.ofSteps, List.map_map]
  exact List.map_id steps

theorem map_ran? (legs : List Leg) :
    (legs.filterMap Leg.ran?).map (·.1) = (legs.map (·.stage)).filterMap RunStage.explicit? := by
  rw [List.map_filterMap, List.filterMap_map]
  congr 1
  funext leg
  cases hstep : leg.stage.explicit? <;> simp [Leg.ran?, hstep]

/-! ## What the context has -/

/-- The legs up to any of them have run the first steps. -/
theorem hasRun_after {h : Hooks} {steps : List Step} {parser : Option Step} {ctx : Context}
    {initial : Payload} {legs : List Leg} {later : List RunStage} (hctx : ctx.steps = [])
    (hstages : stages parser (h.plan steps) initial = legs.map (·.stage) ++ later) :
    HasRun steps legs (Place.after ⟨ctx, initial⟩ legs).context := by
  have houtputs : ∀ i, (Place.after ⟨ctx, initial⟩ legs).context.outputAt? i =
      (legs.filterMap Leg.ran?)[i]?.map (·.2) := by
    intro i
    have hran : legs.filterMap Leg.explicit? = (legs.filterMap Leg.ran?).map (·.2) := by
      rw [List.map_filterMap]
      exact congrArg (legs.filterMap ·) (funext Leg.explicit?_eq)
    rw [Place.outputAt?_after hctx, hran, List.getElem?_map]
  refine ⟨?_, ?_, houtputs⟩
  · have hsteps := filterMap_explicit?_stages h steps parser initial
    rw [hstages, List.filterMap_append, ← map_ran?] at hsteps
    rw [← hsteps, List.take_left' (List.length_map _)]
  · have hlists : (Place.after ⟨ctx, initial⟩ legs).context.explicit.map (·.output) =
        (legs.filterMap Leg.ran?).map (·.2) :=
      List.ext_getElem? fun i => by
        rw [List.getElem?_map, List.getElem?_map]
        exact houtputs i
    have hlength := congrArg List.length hlists
    rwa [List.length_map, List.length_map] at hlength

/-- The context of an execution is the one that the legs have built. -/
theorem Runner.Chronicle.context_of_ok {r : Runner} {label : String} {parser : Option Step}
    {plan : List PlannedStep} {ctx : Context} {initial : Payload} {log : List Exchange}
    {result : Except RunError Execution} (c : r.Chronicle label parser plan ctx initial log result)
    (hctx : ctx.steps = []) {e : Execution} (h : result = .ok e) :
    e.context = c.place.context := by
  rw [c.context_eq hctx]
  cases hrest : c.itinerary.rest with
  | nil =>
    obtain ⟨e', hresult, haccounts⟩ := c.accounts_of_nil hctx hrest
    obtain rfl : e = e' := Except.ok.inj (h.symm.trans hresult)
    exact haccounts.context_eq
  | cons stage later =>
    have hcancels : ¬ Cancelled log := by
      intro hcancelled
      obtain ⟨step, hending⟩ := c.cancelled_iff.1 hcancelled
      have hresult := h.symm.trans c.result_eq
      rw [hending] at hresult
      cases hresult
    obtain ⟨e', hresult, haccounts⟩ := c.accounts_of_cons hctx hcancels hrest
    obtain rfl : e = e' := Except.ok.inj (h.symm.trans hresult)
    exact haccounts.context_eq

/-- A plan holds the steps in order, and its hooks as `Hooks.Arranges` says.  Hooks take no
positions: in any run of the plan from a context without outputs, after each of its stages and in
what it returns, the steps that have completed are the first ones, and the context has the
outputs of their providers at their positions. -/
theorem Hooks.plan_numbers_steps (h : Hooks) (steps : List Step) :
    (h.plan steps).filter (fun entry => !entry.hook) = Plan.ofSteps steps ∧
    (∃ slots, h.Arranges steps slots) ∧
    ∀ {σ : Type} (answer : (q : Request) → σ → q.Answer × σ) (r : Runner) (label : String)
      (parser : Option Step) (ctx : Context) (initial : Payload) (s : σ), ctx.steps = [] →
      let log := (r.execute label parser (h.plan steps) ctx initial).exchanges answer s
      let result := ((r.execute label parser (h.plan steps) ctx initial).runWith answer s).1
      ∃ c : r.Chronicle label parser (h.plan steps) ctx initial log result,
        (∀ legs later, c.itinerary.legs = legs ++ later →
          HasRun steps legs (Place.after ⟨ctx, initial⟩ legs).context) ∧
        ∀ e, result = .ok e → HasRun steps c.itinerary.legs e.context := by
  refine ⟨h.explicit_plan steps, ⟨_, h.arranges_slots steps⟩, ?_⟩
  intro σ answer r label parser ctx initial s hctx log result
  obtain ⟨c⟩ := Runner.chronicle_execute
    (yields_exchanges answer (r.execute label parser (h.plan steps) ctx initial) s)
  refine ⟨c, fun legs later hlegs => ?_, fun e he => ?_⟩
  · have hahead := c.itinerary.ahead_eq
    rw [hlegs, List.map_append, List.append_assoc] at hahead
    exact hasRun_after hctx hahead
  · rw [c.context_of_ok hctx he]
    exact hasRun_after hctx c.itinerary.ahead_eq

/-- Hooks in all positions. -/
def tracing : Hooks where
  before := [⟨⟨"admit", "builtin:identity", [], none, none⟩, none⟩,
    ⟨⟨"enter", "builtin:identity", [], none, none⟩, some .each⟩]
  after := [⟨⟨"report", "builtin:identity", [], none, none⟩, none⟩,
    ⟨⟨"leave", "builtin:identity", [], none, none⟩, some .each⟩]

/-- A run of two steps with hooks around them goes through all stages, and only the two steps take
positions. -/
theorem plan_numbers_tracing :
    let steps : List Step := [⟨"one", "builtin:identity", [], none, none⟩,
      ⟨"two", "builtin:identity", [], none, none⟩]
    let run := (Runner.standard .builtinOnly).execute "p" none (tracing.plan steps)
      (.start .null []) (.raw [])
    (tracing.plan steps).map (·.step.name) =
        ["admit", "enter", "one", "leave", "enter", "two", "report", "leave"] ∧
      (Context.start .null []).steps = [] ∧
      ∃ legs e, (run.runWith Dialogue.prompt ()).1 = .ok e ∧ e.context.steps.length = 8 ∧
        e.context.position = 2 ∧ HasRun steps legs e.context := by
  intro steps run
  have hctx : (Context.start .null []).steps = [] := rfl
  obtain ⟨e, hresult, hsteps, hposition⟩ : ∃ e, (run.runWith Dialogue.prompt ()).1 = .ok e ∧
      e.context.steps.length = 8 ∧ e.context.position = 2 := ⟨_, rfl, rfl, rfl⟩
  obtain ⟨c, -, hreturned⟩ := (Hooks.plan_numbers_steps tracing steps).2.2 Dialogue.prompt
    (.standard .builtinOnly) "p" none (.start .null []) (.raw []) () hctx
  exact ⟨rfl, hctx, c.itinerary.legs, e, hresult, hsteps, hposition, hreturned e hresult⟩

end PipelineEngine
