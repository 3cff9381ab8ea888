import PipelineEngine.Proofs.Run.Backwards
import PipelineEngine.Response.Select

/-!
# Responses to failed runs

A rule guarded by the condition that asks for success is meant for runs that succeed.  The
name in it is a bare one, and a bare name is first that of a step: a step or hook called
`success` that has run hides the outcome's own field, whatever the run came to.

* `Runner.exists_recorded_of_run`: what a finished run has recorded, and what its outcome
  is if it failed.
* `Expr.test_success_of_failure`: the condition against a failure.
* `Document.holds_success_of_failed`: the rules it guards, for every failed run.
-/

namespace PipelineEngine

/-! ## Finished runs -/

/-- The end of a run in whose context are the outputs of the first entries of a plan, and
which is a failure where the run was halted. -/
def RunEnd.IsIn (plan : List PlannedStep) : RunEnd → Prop
  | .completed _ ctx => ∃ front, front <+: plan ∧ ctx.Recorded front
  | .halted halt ctx => halt.outcome.IsFailure ∧ ∃ front, front <+: plan ∧ ctx.Recorded front
  | .cancelled _ => True

namespace Runner

variable {r : Runner} {run : Uuid} {started : Instant} {initial : Payload}
variable {plan : List PlannedStep} {args : Value} {env : Fields String} {usage : Usage}

theorem isIn_of_runPlan {ending : RunEnd}
    (h : (r.runPlan run started initial plan (.start args env) usage).MayReturn ending) :
    ending.IsIn plan := by
  obtain ⟨rest, ctx, usage', hreaches, hends⟩ := exists_reaches_of_mayReturn h
  obtain ⟨front, rfl, -, hsteps⟩ := hreaches.exists_recorded
  have hrecorded : ∃ front', front' <+: front ++ rest ∧ ctx.Recorded front' :=
    ⟨front, List.prefix_append front rest, by simpa [Context.Recorded, Context.start] using hsteps⟩
  cases hends with
  | finished ctx => exact hrecorded
  | halted entry rest ctx hfailure => exact ⟨hfailure, hrecorded⟩
  | cancelled entry rest ctx => trivial

/-- The interpretation of the initial payload records nothing. -/
theorem isIn_of_runAll {parser : Option Step} {ending : RunEnd}
    (h : (r.runAll run started parser plan (.start args env) initial).MayReturn ending) :
    ending.IsIn plan := by
  have hnothing : ∃ front, front <+: plan ∧ (Context.start args env).Recorded front :=
    ⟨[], List.nil_prefix, rfl⟩
  rw [runAll] at h
  split at h
  · exact isIn_of_runPlan h
  · split at h
    · rw [Dialogue.mayReturn_pure_iff] at h
      subst h
      exact ⟨Outcome.isFailure_failed _ _ _, hnothing⟩
    · rw [Dialogue.mayReturn_bind_iff] at h
      obtain ⟨result, hstep, h⟩ := h
      cases result with
      | completed output usage => exact isIn_of_runPlan h
      | halted halt =>
        simp only [Dialogue.mayReturn_pure_iff] at h
        subst h
        exact ⟨isFailure_of_invokeStep hstep, hnothing⟩
      | cancelled =>
        simp only [Dialogue.mayReturn_pure_iff] at h
        subst h
        trivial

/-- A finished run of a pipeline has the outputs of the first entries of its plan, and an
outcome that is no success is a failure. -/
theorem exists_recorded_of_run {m : Model} {name : String} {p : Pipeline}
    (hp : m.pipeline? name = some p) {ex : Execution}
    (h : (r.run m name args initial).MayReturn (.ok ex)) :
    (∃ front, front <+: m.hooks.plan p.steps ∧ ex.context.Recorded front) ∧
      (ex.outcome.success = false → ex.outcome.IsFailure) := by
  simp only [Runner.run, hp, execute, Dialogue.mayReturn_bind_iff] at h
  obtain ⟨run, -, started, -, _, -, ending, hall, hfinish⟩ := h
  have hin := isIn_of_runAll hall
  cases ending with
  | completed body ctx =>
    simp only [finish, Dialogue.mayReturn_bind_iff, Dialogue.mayReturn_pure_iff] at hfinish
    obtain ⟨_, -, hfinish⟩ := hfinish
    cases hfinish
    refine ⟨hin, fun hfailed => ?_⟩
    cases hfailed
  | halted halt ctx =>
    simp only [finish, Dialogue.mayReturn_bind_iff, Dialogue.mayReturn_pure_iff] at hfinish
    obtain ⟨_, -, hfinish⟩ := hfinish
    cases hfinish
    exact ⟨hin.2, fun _ => hin.1⟩
  | cancelled step =>
    simp only [finish, Dialogue.mayReturn_bind_iff, Dialogue.mayReturn_pure_iff] at hfinish
    obtain ⟨_, -, hfinish⟩ := hfinish
    cases hfinish

end Runner

/-! ## The condition -/

/-- The condition that asks for success. -/
theorem Expr.parse_success :
    Expr.parseCondition "$\x7bsuccess\x7d" = .ok (.ref ⟨"success", .named "success", []⟩) := by
  have hparse : Expr.parseCondition "$\x7bsuccess\x7d" =
      .ok (.ref ⟨String.ofList ['s', 'u', 'c', 'c', 'e', 's', 's'],
        .named (String.ofList ['s', 'u', 'c', 'c', 'e', 's', 's']), []⟩) :=
    Expr.parseCondition_of_name rfl (by decide) (List.all_eq_true.1 rfl) (by decide)
  exact hparse

/-- Against a failure the condition is false, unless a step of its name has run: then it
asks for that step's output. -/
theorem Expr.test_success_of_failure {ctx : Context} {o : Outcome} (h : o.IsFailure) :
    (Expr.ref ⟨"success", .named "success", []⟩).test (ctx.withOutcome o) =
      .ok ((ctx.output? "success").any (·.value.truthy)) := by
  have houtput : (ctx.withOutcome o).output? "success" = ctx.output? "success" := rfl
  have houtcome : (ctx.withOutcome o).outcome = some ⟨o.value, o.success⟩ := rfl
  have hfield := h.field?_success
  rw [Expr.test, Expr.evaluate, Reference.resolve, Reference.find]
  simp only [houtput, houtcome]
  cases ctx.output? "success" with
  | some output => rfl
  | none =>
    -- The outcome's own field, which a failure always has, comes before its flag.
    simp only [OutcomeView.walk, hfield]
    cases hvalue : o.value with
    | object fields =>
      rw [hvalue] at hfield
      have hget : Fields.get? fields "success" = some (.bool false) := hfield
      simp only [Value.walk, hget]
      rfl
    | _ =>
      rw [hvalue] at hfield
      cases hfield

/-- A rule whose condition does not hold is not the one that is selected. -/
theorem ResponseRule.holds_of_firstHolding {endpoint : String} {ctx : Context}
    {rules : List ResponseRule} {rule : ResponseRule}
    (h : firstHolding endpoint ctx rules = .ok rule) : rule.holds ctx = .ok true := by
  induction rules with
  | nil => cases h
  | cons r rest ih =>
    rw [firstHolding] at h
    split at h
    · cases h
    · rename_i hholds
      cases h
      exact hholds
    · exact ih h

/-! ## Failed runs -/

/-- For every failed run of a pipeline of a linked document: a rule guarded by the condition
holds exactly when a step called `success` has recorded an output that counts as true, and
that step is one of the pipeline's plan.  Otherwise no rule so guarded is selected. -/
theorem Document.holds_success_of_failed {d : Document} {epoch : Nat} {m : Model}
    (h : d.link epoch = .ok m) {p : Pipeline} (hp : p ∈ m.document.pipelines) {r : Runner}
    {args : Value} {initial : Payload} {ex : Execution}
    (hrun : (r.run m p.name args initial).MayReturn (.ok ex))
    (hfailed : ex.outcome.success = false) :
    (∀ rule : ResponseRule, rule.condition = some "$\x7bsuccess\x7d" →
      rule.holds (ex.context.withOutcome ex.outcome) =
        .ok ((ex.context.output? "success").any (·.value.truthy))) ∧
    ((ex.context.output? "success").isSome →
      ∃ entry ∈ m.hooks.plan p.steps, entry.step.name = "success") ∧
    ((ex.context.output? "success").any (·.value.truthy) = false →
      ∀ endpoint rules rule,
        ResponseRule.firstHolding endpoint (ex.context.withOutcome ex.outcome) rules = .ok rule →
          rule.condition ≠ some "$\x7bsuccess\x7d") := by
  obtain ⟨⟨front, hfront, hrecorded⟩, hfailure⟩ :=
    Runner.exists_recorded_of_run (pipeline?_of_mem h hp) hrun
  have hholds : ∀ rule : ResponseRule, rule.condition = some "$\x7bsuccess\x7d" →
      rule.holds (ex.context.withOutcome ex.outcome) =
        .ok ((ex.context.output? "success").any (·.value.truthy)) := by
    intro rule hcondition
    simp only [ResponseRule.holds, hcondition, Expr.parse_success, bind, Except.bind,
      Expr.test_success_of_failure (hfailure hfailed)]
  refine ⟨hholds, ?_, ?_⟩
  · intro hshadow
    obtain ⟨entry, hentry, hname⟩ := hrecorded.isSome_output?_iff.1 hshadow
    exact ⟨entry, hfront.subset hentry, hname⟩
  · intro hfalse endpoint rules rule hselected hcondition
    have htrue := ResponseRule.holds_of_firstHolding hselected
    rw [hholds rule hcondition, hfalse] at htrue
    cases htrue

/-! ### A failed run with a step of that name, and one without it -/

/-- A pipeline that hands on its payload and then fails. -/
def refusal (name : String) : Pipeline :=
  ⟨"p", [.passing name [], ⟨"refuse", "builtin:fail", [], none, none⟩], none⟩

def refusing (name : String) : Document :=
  ⟨[], [], [], ⟨.empty, none, none, [refusal name], []⟩, []⟩

/-- The failed run of the pipeline on a text. -/
def refused (name : String) : Execution :=
  let text := Payload.parsed (.string "x")
  ⟨default, .failed "refuse" "Step 'refuse' failed: explicit failure" (some text.value),
    (Context.start .null []).record name text false⟩

/-- A rule for success. -/
def welcome : ResponseRule := ⟨200, some "$\x7bsuccess\x7d", none, []⟩

theorem mayReturn_refused (name : String) (hname : name = "first" ∨ name = "success") :
    ((Runner.standard .builtinOnly).run ((refusing name).linked 0) "p" .null
      (.parsed (.string "x"))).MayReturn (.ok (refused name)) := by
  have hrun : (((Runner.standard .builtinOnly).run ((refusing name).linked 0) "p" .null
      (.parsed (.string "x"))).runWith Dialogue.prompt ()).1 = .ok (refused name) := by
    rcases hname with rfl | rfl <;> rfl
  rw [← hrun]
  exact Dialogue.mayReturn_runWith _ _ _

theorem holds_success_of_refused :
    (refusing "first").link 0 = .ok ((refusing "first").linked 0) ∧
      (refused "first").outcome.success = false ∧
        welcome.holds ((refused "first").context.withOutcome (refused "first").outcome) =
          .ok false := by
  have hm : (refusing "first").link 0 = .ok ((refusing "first").linked 0) :=
    Document.link_eq_ok_iff.2 ⟨rfl, rfl⟩
  have hp : refusal "first" ∈ ((refusing "first").linked 0).document.pipelines :=
    List.mem_singleton_self _
  have hrun := mayReturn_refused "first" (.inl rfl)
  exact ⟨hm, rfl, (Document.holds_success_of_failed hm hp hrun rfl).1 welcome rfl⟩

theorem holds_success_of_shadowed :
    (refusing "success").link 0 = .ok ((refusing "success").linked 0) ∧
      refusal "success" ∈ ((refusing "success").linked 0).document.pipelines ∧
        ((Runner.standard .builtinOnly).run ((refusing "success").linked 0) (refusal "success").name
          .null (.parsed (.string "x"))).MayReturn (.ok (refused "success")) ∧
        (refused "success").outcome.success = false ∧
        ResponseRule.firstHolding "POST /" ((refused "success").context.withOutcome
          (refused "success").outcome) [welcome, ⟨422, none, none, []⟩] = .ok welcome := by
  have hm : (refusing "success").link 0 = .ok ((refusing "success").linked 0) :=
    Document.link_eq_ok_iff.2 ⟨rfl, rfl⟩
  have hholds : welcome.holds ((refused "success").context.withOutcome
      (refused "success").outcome) = .ok true := by
    simp only [ResponseRule.holds, welcome, Expr.parse_success, bind, Except.bind]
    rfl
  refine ⟨hm, List.mem_singleton_self _, mayReturn_refused "success" (.inr rfl), rfl, ?_⟩
  rw [ResponseRule.firstHolding, hholds]

end PipelineEngine
