import PipelineEngine.Proofs.Run.Followed

/-!
# Runs stay within their limits

Steps are counted when they complete and checked before they start, so a run counts one step
less than it has started.  The bounds hold anyway, because a step that does not complete is the
last of its run.

* `Runner.Itinerary.length_le`: no more stages complete than the limit lets start.
* `Runner.Concludes.silent_or_calls`: behind them a provider is asked for one stage at most,
  and only if the limit lets it start.
* `Runner.execute_within_limits`: the bounds, for whole runs in any surroundings.
-/

namespace PipelineEngine

open Dialogue

namespace Place

/-- The initial payload is the one that the run was given, or the output of a stage. -/
theorem initial_after (p : Place) (legs : List Leg) :
    (p.after legs).initial = p.initial ∨ ∃ leg ∈ legs, (p.after legs).initial = leg.output := by
  induction legs generalizing p with
  | nil => exact .inl rfl
  | cons leg legs ih =>
    show ((p.complete leg.stage leg.output).after legs).initial = _ ∨ _
    rcases ih (p.complete leg.stage leg.output) with hsame | ⟨other, hother, hinitial⟩
    · rw [hsame]
      cases hstage : leg.stage with
      | reading parser =>
        refine .inr ⟨leg, List.mem_cons_self, hsame.trans ?_⟩
        rw [hstage]
        rfl
      | planned entry => exact .inl rfl
    · exact .inr ⟨other, List.mem_cons_of_mem leg hother, hinitial⟩

end Place

namespace Runner

variable {r : Runner} {started : Instant} {done : Nat} {p : Place} {rest : List RunStage}
variable {log : List Exchange} {ending : RunEnd}

/-! ## The stages of an itinerary -/

/-- An element that only the last place can hold. -/
theorem last_eq_of_append_cons {α : Type} {front before after : List α} {last a : α}
    (h : front ++ [last] = before ++ a :: after) (ha : a ∉ front) : last = a ∧ after = [] := by
  rcases List.eq_nil_or_concat after with rfl | ⟨after, b, rfl⟩
  · obtain ⟨-, hlast⟩ := List.append_inj' h rfl
    exact ⟨List.singleton_inj.1 hlast, rfl⟩
  · rw [List.concat_eq_append, ← List.cons_append, ← List.append_assoc] at h
    obtain ⟨rfl, -⟩ := List.append_inj' h rfl
    exact absurd (List.mem_append_right before List.mem_cons_self) ha

section
variable {step : Step} {input : Payload} {call : Call} {failures : List Reply} {last : Reply}
variable (h : r.Calls started done step input log call failures last)
include h

theorem Calls.steps : done < r.limits.maxSteps := by
  obtain ⟨now, -, hadmits⟩ := h.admitted
  exact hadmits.steps

theorem Calls.call_eq {x : Call × Reply} (hx : x ∈ invocations log) : x.1 = call := by
  rw [h.invocations_eq] at hx
  obtain ⟨reply, -, rfl⟩ := List.mem_map.1 hx
  rfl

theorem Calls.size {x : Call × Reply} (hx : x ∈ invocations log) :
    x.1.input.size ≤ r.limits.maxPayloadBytes := by
  obtain ⟨now, -, hadmits⟩ := h.admitted
  rw [h.call_eq hx]
  exact hadmits.size

/-- An output is the last thing that is replied. -/
theorem Calls.returned {before after : List (Call × Reply)} {call' : Call} {output : Payload}
    (heq : invocations log = before ++ (call', .returned output) :: after) :
    last = .returned output ∧ after = [] := by
  have hreturned : (call', Reply.returned output) ∉ failures.map fun reply => (call, reply) := by
    intro hmem
    obtain ⟨reply, hreply, hpair⟩ := List.mem_map.1 hmem
    obtain ⟨-, rfl⟩ := Prod.mk.inj hpair
    exact absurd (h.failures _ hreply) nofun
  rw [h.invocations_eq, List.map_append] at heq
  obtain ⟨hlast, hafter⟩ := last_eq_of_append_cons heq hreturned
  exact ⟨(Prod.mk.inj hlast).2, hafter⟩

end

/-- A stage that does not complete is not asked for, or it is started within the limit. -/
theorem Concludes.silent_or_calls (h : r.Concludes started done p rest log ending) :
    (invocations log = [] ∧
      log.countP Exchange.starts ≤ if done < r.limits.maxSteps then 1 else 0) ∨
    ∃ stage later call failures last, rest = stage :: later ∧ p.input stage = .ok call.input ∧
      r.Calls started done stage.step call.input log call failures last ∧
      ∀ output, last = .returned output →
        r.limits.maxPayloadBytes < output.size ∧ ¬ Cancelled log := by
  cases h with
  | completed => exact .inl ⟨rfl, Nat.zero_le _⟩
  | unbuilt _ hlog =>
    refine .inl ⟨invocations_of_idle hlog, ?_⟩
    rw [countP_starts_of_idle hlog]
    exact Nat.zero_le _
  | stopped => exact .inl ⟨rfl, Nat.zero_le _⟩
  | halted hinput hstep =>
    cases hstep with
    | refused _ _ _ hinvocations _ hstarts => exact .inl ⟨hinvocations, hstarts⟩
    | failed hcalls hlast hcancels =>
      obtain rfl := hcalls.input
      exact .inr ⟨_, _, _, _, _, rfl, hinput, hcalls,
        fun output houtput => ⟨hlast output houtput, hcancels⟩⟩
  | cancelled hinput hstep =>
    cases hstep with
    | cancelled hcalls hlast =>
      obtain rfl := hcalls.input
      refine .inr ⟨_, _, _, _, _, rfl, hinput, hcalls, ?_⟩
      rintro output rfl
      cases hlast

theorem Itinerary.length_le {ahead : List RunStage}
    (i : r.Itinerary started 0 p ahead log ending) : i.legs.length ≤ r.limits.maxSteps := by
  rcases List.eq_nil_or_concat i.legs with hnil | ⟨legs, leg, heq⟩
  · rw [hnil]
    exact Nat.zero_le _
  · rw [List.concat_eq_append] at heq
    obtain ⟨_, _, _, -, hcalls⟩ := (i.completes legs leg [] heq).calls
    have hlt := hcalls.steps
    rw [Nat.zero_add] at hlt
    rw [heq, List.length_append, List.length_singleton]
    exact hlt

/-- The provider of a stage that completes has been asked within the limits. -/
theorem Itinerary.exists_calls {ahead : List RunStage} {leg : Leg}
    (i : r.Itinerary started done p ahead log ending) (hleg : leg ∈ i.legs) :
    ∃ before input call failures, leg.output.size ≤ r.limits.maxPayloadBytes ∧
      r.Calls started before leg.stage.step input leg.log call failures (.returned leg.output) := by
  obtain ⟨before, after, heq⟩ := List.append_of_mem hleg
  have hcompletes := i.completes before leg after heq
  obtain ⟨input, call, failures, -, hcalls⟩ := hcompletes.calls
  exact ⟨_, input, call, failures, hcompletes.size, hcalls⟩

theorem Itinerary.size_le {ahead : List RunStage} (i : r.Itinerary started done p ahead log ending)
    {x : Call × Reply} (hx : x ∈ invocations log) : x.1.input.size ≤ r.limits.maxPayloadBytes := by
  rw [i.invocations_eq, List.mem_append, List.mem_flatMap] at hx
  rcases hx with ⟨leg, hleg, hx⟩ | hx
  · obtain ⟨_, _, _, _, -, hcalls⟩ := i.exists_calls hleg
    exact hcalls.size hx
  · rcases i.concludes.silent_or_calls with ⟨hsilent, -⟩ | ⟨_, _, _, _, _, -, -, hcalls, -⟩
    · rw [hsilent] at hx
      cases hx
    · exact hcalls.size hx

/-- An output that is too large comes last, and not from a stage that completes. -/
theorem Itinerary.oversized {ahead : List RunStage}
    (i : r.Itinerary started done p ahead log ending)
    {before after : List (Call × Reply)} {call : Call} {output : Payload}
    (heq : invocations log = before ++ (call, .returned output) :: after)
    (hsize : r.limits.maxPayloadBytes < output.size) :
    after = [] ∧ ¬ Cancelled i.back ∧
      ∃ stage later, i.rest = stage :: later ∧ call.step = stage.step := by
  have hlegs : (call, Reply.returned output) ∉
      i.legs.flatMap fun leg => invocations leg.log := by
    intro hmem
    obtain ⟨leg, hleg, hmem⟩ := List.mem_flatMap.1 hmem
    obtain ⟨_, _, _, _, hfits, hcalls⟩ := i.exists_calls hleg
    obtain ⟨front, back, hsplit⟩ := List.append_of_mem hmem
    obtain ⟨hlast, -⟩ := hcalls.returned hsplit
    obtain rfl := Reply.returned.inj hlast
    exact Nat.not_lt.2 hfits hsize
  have hback : ∃ front, invocations i.back = front ++ (call, .returned output) :: after := by
    rw [i.invocations_eq] at heq
    rcases List.append_eq_append_iff.1 heq with ⟨front, -, hfront⟩ | ⟨behind, hbefore, hbehind⟩
    · exact ⟨front, hfront⟩
    · cases behind with
      | nil => exact ⟨[], hbehind.symm⟩
      | cons x behind =>
        obtain ⟨rfl, -⟩ := List.cons.inj hbehind
        rw [hbefore] at hlegs
        exact absurd (List.mem_append_right before List.mem_cons_self) hlegs
  obtain ⟨front, hfront⟩ := hback
  rcases i.concludes.silent_or_calls with
    ⟨hsilent, -⟩ | ⟨stage, later, asked, failures, last, hrest, -, hcalls, hlast⟩
  · rw [hsilent] at hfront
    exact absurd hfront.symm (List.append_ne_nil_of_right_ne_nil _ (List.cons_ne_nil _ _))
  · obtain ⟨hreturned, hafter⟩ := hcalls.returned hfront
    refine ⟨hafter, (hlast output hreturned).2, stage, later, hrest, ?_⟩
    have hmem : (call, Reply.returned output) ∈ invocations i.back := by
      rw [hfront]
      exact List.mem_append_right front List.mem_cons_self
    rw [← hcalls.step, ← hcalls.call_eq hmem]

/-! ## Steps that are started -/

theorem countP_starts_legs_le {legs : List Leg}
    (h : ∀ leg ∈ legs, leg.log.countP Exchange.starts ≤ 1) :
    (legs.flatMap (·.log)).countP Exchange.starts ≤ legs.length := by
  induction legs with
  | nil => exact Nat.le_refl 0
  | cons leg legs ih =>
    obtain ⟨hleg, hlegs⟩ := List.forall_mem_cons.1 h
    rw [List.flatMap_cons, List.countP_append, List.length_cons, Nat.add_comm]
    exact Nat.add_le_add (ih hlegs) hleg

/-- With the stage that does not complete no more stages are started than the limit lets
start. -/
theorem Itinerary.started_le {ahead : List RunStage}
    (i : r.Itinerary started 0 p ahead log ending) :
    i.legs.length + (if invocations i.back = [] then 0 else 1) ≤ r.limits.maxSteps ∧
      log.countP Exchange.starts ≤ r.limits.maxSteps := by
  have hlength := i.length_le
  have hlegs : (i.legs.flatMap (·.log)).countP Exchange.starts ≤ i.legs.length := by
    apply countP_starts_legs_le
    intro leg hleg
    obtain ⟨_, _, _, _, -, hcalls⟩ := i.exists_calls hleg
    exact hcalls.starts
  rw [congrArg (List.countP Exchange.starts) i.log_eq, List.countP_append]
  rcases i.concludes.silent_or_calls with ⟨hsilent, hback⟩ | ⟨_, _, _, _, _, -, -, hcalls, -⟩
  · rw [Nat.zero_add] at hback
    rw [if_pos hsilent]
    refine ⟨hlength, ?_⟩
    split at hback <;> omega
  · have hsteps := hcalls.steps
    have hback := hcalls.starts
    constructor
    · split <;> omega
    · omega

/-! ## Whole runs -/

/-- An execution holds the context of the place that its run got to. -/
theorem Concludes.context_eq {run : Uuid} {e : Execution}
    (h : r.Concludes started done p rest log ending) (hresult : ending.result run label = .ok e) :
    e.context = p.context := by
  cases h with
  | completed | unbuilt | halted =>
    cases hresult
    rfl
  | stopped | cancelled => cases hresult

section
variable {label : String} {parser : Option Step} {plan : List PlannedStep} {ctx : Context}
variable {initial : Payload} {result : Except RunError Execution}

/-- The run ends with a failed outcome that names a stage, unless it is told to stop. -/
def HaltsAt (log : List Exchange) (result : Except RunError Execution) (stage : RunStage) : Prop :=
  ¬ Cancelled log → ∃ e, result = .ok e ∧ e.outcome.success = false ∧
    e.outcome.failedStep = some stage.step.name

/-- A run keeps to its limits. -/
structure Chronicle.KeepsLimits (c : r.Chronicle label parser plan ctx initial log result) :
    Prop where
  /-- The stages that complete, and the one behind them if its provider is asked. -/
  steps : c.itinerary.legs.length + (if invocations c.itinerary.back = [] then 0 else 1) ≤
    r.limits.maxSteps
  starts : log.countP Exchange.starts ≤ r.limits.maxSteps
  inputs : ∀ x ∈ invocations log, x.1.input.size ≤ r.limits.maxPayloadBytes
  recorded : ∀ e, result = .ok e → ∃ recorded, e.context.steps = ctx.steps ++ recorded ∧
    ∀ step ∈ recorded, step.output.size ≤ r.limits.maxPayloadBytes
  parsed : c.place.initial = initial ∨ c.place.initial.size ≤ r.limits.maxPayloadBytes
  /-- The stage behind as many as may start, or one with an input that is too large, is not
  asked for. -/
  refuses : ∀ stage later, c.itinerary.rest = stage :: later →
    (r.limits.maxSteps ≤ c.itinerary.legs.length ∨
      ∃ input, c.place.input stage = .ok input ∧ r.limits.maxPayloadBytes < input.size) →
    invocations c.itinerary.back = [] ∧ HaltsAt log result stage
  /-- An output that is too large is the last thing that a provider replies. -/
  oversized : ∀ before call output after,
    invocations log = before ++ (call, .returned output) :: after →
    r.limits.maxPayloadBytes < output.size →
    after = [] ∧ ¬ Cancelled log ∧ ∃ stage later, c.itinerary.rest = stage :: later ∧
      call.step = stage.step ∧ HaltsAt log result stage

variable (c : r.Chronicle label parser plan ctx initial log result)
include c

theorem Chronicle.haltsAt {stage : RunStage} {later : List RunStage}
    (hrest : c.itinerary.rest = stage :: later) : HaltsAt log result stage := by
  intro hcancels
  obtain ⟨halt, hresult, hfails, -⟩ := c.halted_of_cons hcancels hrest
  obtain ⟨error, output, houtcome⟩ := hfails.outcome
  refine ⟨_, hresult, ?_⟩
  show halt.outcome.success = false ∧ halt.outcome.failedStep = _
  rw [houtcome]
  exact ⟨rfl, rfl⟩

theorem Chronicle.starts_le : log.countP Exchange.starts ≤ r.limits.maxSteps := by
  obtain ⟨hopening, hclosing⟩ := List.forall_mem_append.1 c.idle
  rw [congrArg (List.countP Exchange.starts) c.log_eq]
  show (c.opening ++ (c.middle ++ c.closing)).countP Exchange.starts ≤ _
  rw [List.countP_append, List.countP_append, countP_starts_of_idle hopening,
    countP_starts_of_idle hclosing, Nat.zero_add, Nat.add_zero]
  exact c.itinerary.started_le.2

theorem Chronicle.recorded {e : Execution} (hresult : result = .ok e) :
    ∃ recorded, e.context.steps = ctx.steps ++ recorded ∧
      ∀ step ∈ recorded, step.output.size ≤ r.limits.maxPayloadBytes := by
  refine ⟨c.itinerary.legs.filterMap Leg.recorded?, ?_, ?_⟩
  · rw [c.concludes.context_eq (c.result_eq.symm.trans hresult), Chronicle.place,
      Place.context_after]
  · intro step hstep
    obtain ⟨leg, hleg, hrecorded⟩ := List.mem_filterMap.1 hstep
    obtain ⟨_, _, _, _, hsize, -⟩ := c.itinerary.exists_calls hleg
    rw [Leg.recorded?] at hrecorded
    split at hrecorded
    · cases hrecorded
    · obtain rfl := Option.some.inj hrecorded
      exact hsize

theorem Chronicle.refuses {stage : RunStage} {later : List RunStage}
    (hrest : c.itinerary.rest = stage :: later)
    (h : r.limits.maxSteps ≤ c.itinerary.legs.length ∨
      ∃ input, c.place.input stage = .ok input ∧ r.limits.maxPayloadBytes < input.size) :
    invocations c.itinerary.back = [] := by
  rcases c.concludes.silent_or_calls with
    ⟨hsilent, -⟩ | ⟨stage', later', call, failures, last, hcons, hinput, hcalls, -⟩
  · exact hsilent
  · obtain ⟨rfl, -⟩ := List.cons.inj (hrest.symm.trans hcons)
    rcases h with hsteps | ⟨input, hinput', hsize⟩
    · exact absurd hcalls.steps (Nat.not_lt.2 hsteps)
    · obtain rfl := Except.ok.inj (hinput'.symm.trans hinput)
      obtain ⟨now, -, hadmits⟩ := hcalls.admitted
      exact absurd hadmits.size (Nat.not_le.2 hsize)

end

/-- In any surroundings a run keeps to its limits. -/
theorem execute_within_limits {σ : Type} (answer : (q : Request) → σ → q.Answer × σ) (r : Runner)
    (label : String) (parser : Option Step) (plan : List PlannedStep) (ctx : Context)
    (initial : Payload) (s : σ) :
    ∃ c : r.Chronicle label parser plan ctx initial
        ((r.execute label parser plan ctx initial).exchanges answer s)
        ((r.execute label parser plan ctx initial).runWith answer s).1,
      c.KeepsLimits := by
  obtain ⟨c⟩ := chronicle_execute
    (yields_exchanges answer (r.execute label parser plan ctx initial) s)
  refine ⟨c, c.itinerary.started_le.1, c.starts_le, ?_, fun e => c.recorded, ?_, ?_, ?_⟩
  · intro x hx
    rw [c.invocations_middle] at hx
    exact c.itinerary.size_le hx
  · rcases Place.initial_after ⟨ctx, initial⟩ c.itinerary.legs with hsame | ⟨leg, hleg, hinitial⟩
    · exact .inl hsame
    · obtain ⟨_, _, _, _, hsize, -⟩ := c.itinerary.exists_calls hleg
      exact .inr (Nat.le_trans (Nat.le_of_eq (congrArg Payload.size hinitial)) hsize)
  · intro stage later hrest h
    exact ⟨c.refuses hrest h, c.haltsAt hrest⟩
  · intro before call output after heq hsize
    rw [c.invocations_middle] at heq
    obtain ⟨hafter, hback, stage, later, hrest, hstep⟩ := c.itinerary.oversized heq hsize
    refine ⟨hafter, ?_, stage, later, hrest, hstep, c.haltsAt hrest⟩
    rw [c.cancelled_iff, ← c.itinerary.concludes.cancelled_iff]
    exact hback

/-- Two of three stages may start: nothing is asked for the third, and the run fails there. -/
example :
    let run := relayed 2 "builtin:identity" (.raw [])
    (invocations (run.exchanges prompt ())).map (·.1.step.name) = ["read", "one"] ∧
      (run.runWith prompt ()).1.toOption.map (fun e => (e.outcome.success, e.outcome.failedStep)) =
        some (false, some "two") :=
  ⟨rfl, rfl⟩

end Runner

end PipelineEngine
