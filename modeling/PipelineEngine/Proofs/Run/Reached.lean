import PipelineEngine.Proofs.Expression.Reference
import PipelineEngine.Proofs.Model.Hooks
import PipelineEngine.Proofs.Run.Invocations

/-!
# What a run has recorded when it gets somewhere

A run goes through a plan entry by entry, and what it has recorded on the way to an entry
are the outputs of the entries before it.

* `Runner.Reaches`: a run gets through some entries of a plan.  Whatever a run returns, it
  gets to where it ends (`exists_reaches_of_mayReturn`).
* `Reaches.exists_recorded`: the outputs are those of the entries.
* `Document.findsNames_iff_ready`: in the runs of a pipeline hooks find what they refer to
  exactly when their positions are ready for it.
-/

namespace PipelineEngine

namespace Runner

variable {r : Runner} {run : Uuid} {started : Instant} {initial : Payload}

/-- A run gets from the start of a plan to the start of another one, the rest of it: the
inputs of the entries between them can be built and their invocations complete. -/
inductive Reaches (r : Runner) (run : Uuid) (started : Instant) (initial : Payload) :
    (plan : List PlannedStep) → Context → Usage → (rest : List PlannedStep) → Context → Usage → Prop
  | here (plan : List PlannedStep) (ctx : Context) (usage : Usage) :
    Reaches r run started initial plan ctx usage plan ctx usage
  | next {entry : PlannedStep} {plan rest : List PlannedStep} {ctx ctx' : Context}
      {usage usage₁ usage' : Usage} {input output : Payload}
      (hinput : entry.step.buildInput ctx initial = .ok input)
      (hstep : (r.invokeStep run started usage entry.step input).MayReturn
        (.completed output usage₁))
      (h : Reaches r run started initial plan (ctx.record entry.step.name output entry.hook) usage₁
        rest ctx' usage') :
    Reaches r run started initial (entry :: plan) ctx usage rest ctx' usage'

variable {plan rest : List PlannedStep} {ctx ctx' : Context} {usage usage' : Usage}

/-! ## Runs and the places that they get to -/

/-- Where a run ends: at the end of its plan, or at an entry that it got to; an entry that
halts it leaves a failure. -/
inductive EndsAt (initial : Payload) : List PlannedStep → Context → RunEnd → Prop
  | finished (ctx : Context) :
    EndsAt initial [] ctx (.completed (ctx.lastOutput?.getD initial) ctx)
  | halted (entry : PlannedStep) (rest : List PlannedStep) (ctx : Context) {halt : Halt}
      (hfailure : halt.outcome.IsFailure) :
    EndsAt initial (entry :: rest) ctx (.halted halt ctx)
  | cancelled (entry : PlannedStep) (rest : List PlannedStep) (ctx : Context) :
    EndsAt initial (entry :: rest) ctx (.cancelled entry.step.name)

/-- Every run ends somewhere, and gets there. -/
theorem exists_reaches_of_mayReturn {ending : RunEnd}
    (h : (r.runPlan run started initial plan ctx usage).MayReturn ending) :
    ∃ rest ctx' usage', r.Reaches run started initial plan ctx usage rest ctx' usage' ∧
      EndsAt initial rest ctx' ending := by
  induction plan generalizing ctx usage with
  | nil =>
    rw [runPlan, Dialogue.mayReturn_pure_iff] at h
    subst h
    exact ⟨[], ctx, usage, .here _ _ _, .finished ctx⟩
  | cons entry plan ih =>
    have hhere : r.Reaches run started initial (entry :: plan) ctx usage (entry :: plan) ctx
        usage := .here _ _ _
    rw [runPlan, Dialogue.mayReturn_bind_iff] at h
    obtain ⟨cancelled, -, h⟩ := h
    cases cancelled with
    | true =>
      simp only [if_true, Dialogue.mayReturn_pure_iff] at h
      subst h
      exact ⟨_, _, _, hhere, .cancelled entry plan ctx⟩
    | false =>
      simp only [Bool.false_eq_true, if_false] at h
      cases hinput : entry.step.buildInput ctx initial with
      | error e =>
        simp only [hinput] at h
        rw [Dialogue.mayReturn_bind_iff] at h
        obtain ⟨⟨⟩, -, h⟩ := h
        rw [Dialogue.mayReturn_pure_iff] at h
        subst h
        exact ⟨_, _, _, hhere, .halted entry plan ctx (Outcome.isFailure_failed _ _ _)⟩
      | ok input =>
        simp only [hinput] at h
        rw [Dialogue.mayReturn_bind_iff] at h
        obtain ⟨result, hstep, h⟩ := h
        cases result with
        | completed output usage₁ =>
          obtain ⟨rest, ctx', usage', hreaches, hends⟩ := ih h
          exact ⟨rest, ctx', usage', .next hinput hstep hreaches, hends⟩
        | halted halt =>
          simp only [Dialogue.mayReturn_pure_iff] at h
          subst h
          exact ⟨_, _, _, hhere, .halted entry plan ctx (isFailure_of_invokeStep hstep)⟩
        | cancelled =>
          simp only [Dialogue.mayReturn_pure_iff] at h
          subst h
          exact ⟨_, _, _, hhere, .cancelled entry plan ctx⟩

/-! ## Recorded outputs -/

/-- A run that gets through some entries has recorded an output for each, with its name and
as that of a hook or of an explicit step, and nothing else. -/
theorem Reaches.exists_recorded
    (h : r.Reaches run started initial plan ctx usage rest ctx' usage') :
    ∃ front, plan = front ++ rest ∧ ctx'.outcome = ctx.outcome ∧
      ctx'.steps.map (fun s => (s.name, s.hook)) =
        ctx.steps.map (fun s => (s.name, s.hook)) ++ front.map fun e => (e.step.name, e.hook) := by
  induction h with
  | here plan ctx usage => exact ⟨[], rfl, rfl, (List.append_nil _).symm⟩
  | @next entry plan rest ctx ctx' usage usage₁ usage' input output hinput hstep h ih =>
    obtain ⟨front, rfl, houtcome, hsteps⟩ := ih
    refine ⟨entry :: front, rfl, houtcome, ?_⟩
    rw [hsteps]
    simp [Context.record]

end Runner

/-- There is an output under a name exactly when a step of the name has run. -/
theorem Context.isSome_output?_iff {ctx : Context} {name : String} :
    (ctx.output? name).isSome ↔ name ∈ ctx.steps.map (·.name) := by
  simp [Context.output?, List.find?_isSome]

/-! ## References that find their step -/

/-- Why a reference to a step has no value when the step has not run. -/
def Reference.noPriorStep (name : String) : String := "no prior step named '" ++ name ++ "'"

theorem Reference.head?_noPriorStep (name : String) :
    (noPriorStep name).toList.head? = some 'n' := by
  unfold noPriorStep
  simp

/-- Why a path leads nowhere in a value never starts with this letter. -/
theorem Value.walk_ne_of_head {text : String} (htext : text.toList.head? = some 'n')
    (path : List PathSegment) (v : Value) : v.walk path ≠ .error text := by
  have hfirst : ∀ {reason : String}, reason.toList.head? ≠ some 'n' →
      (Except.error reason : Except String Value) ≠ .error text := by
    intro reason hhead heq
    rw [Except.error.inj heq] at hhead
    exact hhead htext
  induction path generalizing v with
  | nil => simp [Value.walk]
  | cons segment rest ih =>
    rw [Value.walk.eq_def]
    split
    · rename_i heq
      cases heq
    · rename_i heq
      cases heq
      split
      · exact ih _
      · exact hfirst (by simp)
    · rename_i heq
      cases heq
      split
      · exact ih _
      · exact hfirst (by simp)
    · exact hfirst (by simp)

/-- A reference to a step that has run leads into its output. -/
theorem Reference.find_of_named {ref : Reference} {ctx : Context} {name : String}
    (hroot : ref.root = .named name) {output : Payload} (h : ctx.output? name = some output) :
    ref.find ctx = output.value.walk ref.path := by
  simp [find, hroot, h]

/-- A reference to a step that has not run fails and says so, as long as there is no
outcome. -/
theorem Reference.find_of_missing {ref : Reference} {ctx : Context} {name : String}
    (hroot : ref.root = .named name) (h : ctx.output? name = none) (houtcome : ctx.outcome = none) :
    ref.find ctx = .error (noPriorStep name) := by
  unfold noPriorStep
  simp only [find, hroot, h, houtcome]

namespace Runner

variable {r : Runner} {run : Uuid} {started : Instant} {initial : Payload}
variable {plan rest : List PlannedStep} {ctx' : Context} {usage usage' : Usage}

/-- Where a run gets to, a step has an output exactly when it stands before that place,
and a reference to it fails for want of the step exactly when it does not. -/
theorem Reaches.find_iff {args : Value} {env : Fields String}
    (h : r.Reaches run started initial plan (.start args env) usage rest ctx' usage') :
    ∃ front, plan = front ++ rest ∧ ∀ (ref : Reference) (name : String), ref.root = .named name →
      ((ctx'.output? name).isSome ↔ ∃ e ∈ front, e.step.name = name) ∧
        (ref.find ctx' = .error (Reference.noPriorStep name) ↔
          ¬ ∃ e ∈ front, e.step.name = name) := by
  obtain ⟨front, hplan, houtcome, hsteps⟩ := h.exists_recorded
  have hnames : ctx'.steps.map (·.name) = front.map (·.step.name) := by
    simpa [Function.comp_def, Context.start] using congrArg (List.map Prod.fst) hsteps
  refine ⟨front, hplan, ?_⟩
  intro ref name hroot
  have hrecorded : (ctx'.output? name).isSome ↔ ∃ e ∈ front, e.step.name = name := by
    rw [Context.isSome_output?_iff, hnames]
    exact List.mem_map
  refine ⟨hrecorded, ?_⟩
  rw [← hrecorded]
  cases houtput : ctx'.output? name with
  | none =>
    rw [Reference.find_of_missing hroot houtput houtcome]
    simp
  | some output =>
    rw [Reference.find_of_named hroot houtput]
    simp [Value.walk_ne_of_head (Reference.head?_noPriorStep name)]

/-- Wherever a run of the plan gets to a hook, the steps to which the hook refers have
outputs, and no reference fails for want of one. -/
def FindsNames (r : Runner) (run : Uuid) (started : Instant) (initial : Payload)
    (plan : List PlannedStep) (ctx : Context) (usage : Usage) : Prop :=
  ∀ entry rest ctx' usage',
    r.Reaches run started initial plan ctx usage (entry :: rest) ctx' usage' →
      entry.hook = true → ∀ ref ∈ entry.step.references, ∀ name, ref.root = .named name →
        (ctx'.output? name).isSome ∧ ref.find ctx' ≠ .error (Reference.noPriorStep name)

/-- Hooks that refer back find what they refer to, in every run. -/
theorem findsNames_of_refersBack (h : Plan.RefersBack plan) (r : Runner) (run : Uuid)
    (started : Instant) (initial : Payload) (args : Value) (env : Fields String) (usage : Usage) :
    r.FindsNames run started initial plan (.start args env) usage := by
  intro entry rest ctx' usage' hreaches hhook ref href name hroot
  obtain ⟨front, hplan, hfind⟩ := hreaches.find_iff
  obtain ⟨hrecorded, hmissing⟩ := hfind ref name hroot
  have hearlier : ∃ e ∈ front, e.step.name = name :=
    h front entry rest hplan hhook name (Step.mem_referencedNames_iff.2 ⟨ref, href, hroot⟩)
  exact ⟨hrecorded.2 hearlier, fun hfails => hmissing.1 hfails hearlier⟩

end Runner

/-- In the plan of a pipeline of a linked document hooks come after what they refer to, and
in its runs they find it, exactly when the positions of the hooks are ready for the number
of its steps. -/
theorem Document.findsNames_iff_ready {d : Document} {epoch : Nat} {m : Model}
    (h : d.link epoch = .ok m) {p : Pipeline} (hp : p ∈ m.document.pipelines) :
    (Plan.RefersBack (m.hooks.plan p.steps) ∧
      ∀ (r : Runner) (run : Uuid) (started : Instant) (initial : Payload) (args : Value)
        (usage : Usage), r.FindsNames run started initial (m.hooks.plan p.steps)
          (.start args m.env) usage) ↔
      m.hooks.Ready p.steps.length := by
  rw [← refersBack_iff_ready h hp]
  constructor
  · exact fun hboth => hboth.1
  · intro hback
    refine ⟨hback, ?_⟩
    intro r run started initial args usage
    exact Runner.findsNames_of_refersBack hback r run started initial args m.env usage

/-! ### A hook that waits for the last step, and one that cannot wait for it -/

/-- A step that hands on what it gets. -/
def Step.passing (name : String) (mappings : List Mapping) : Step :=
  ⟨name, "builtin:identity", mappings, none, none⟩

/-- Two hooks of which the second refers to the first, around a pipeline of two steps. -/
def relay (position : HookPosition) : Document :=
  let hooks : Hooks := ⟨[⟨.passing "late" [], some position⟩,
    ⟨.passing "early" [⟨"$\x7blate\x7d", some "x"⟩], none⟩], []⟩
  let pipeline : Pipeline := ⟨"p", [.passing "one" [], .passing "two" []], none⟩
  ⟨[], [], [], ⟨⟨[], [], hooks⟩, none, none, [pipeline], []⟩, []⟩

theorem parse_late :
    Expr.parseMapping "$\x7blate\x7d" = .ok (.ref ⟨"late", .named "late", []⟩) := by
  have hparse : Expr.parseMapping "$\x7blate\x7d" = .ok (.ref ⟨String.ofList ['l', 'a', 't', 'e'],
      .named (String.ofList ['l', 'a', 't', 'e']), []⟩) :=
    Expr.parseMapping_of_name rfl (by decide) (List.all_eq_true.1 rfl) (by decide)
  exact hparse

/-- Linking looks at the hooks in the order of their declaration, whatever their
positions. -/
theorem faults_relay (position : HookPosition) : (relay position).faults = [] := by
  have hpipelines : (relay position).pipelineFaults = [] := by
    cases position <;> rfl
  have hoptions : (relay position).optionFaults = [] := by
    have hearly : Plan.stepFaults (relay position) "global hooks"
        ((relay position).hooks.steps.map fun s => ⟨s, true⟩) 1
        ⟨.passing "early" [⟨"$\x7blate\x7d", some "x"⟩], true⟩ = [] := by
      rw [Plan.stepFaults]
      simp only [Step.passing, List.flatMap_cons, Plan.mappingFaults, parse_late]
      rfl
    have hlate : Plan.stepFaults (relay position) "global hooks"
        ((relay position).hooks.steps.map fun s => ⟨s, true⟩) 0
        ⟨.passing "late" [], true⟩ = [] := by
      rw [Plan.stepFaults]
      rfl
    rw [Document.optionFaults]
    show Plan.faults _ _ _ _ = []
    rw [Plan.faults, List.append_eq_nil_iff]
    refine ⟨rfl, ?_⟩
    show Plan.stepFaults _ _ _ 0 _ ++ (Plan.stepFaults _ _ _ 1 _ ++ []) = []
    rw [hearly, hlate]
    rfl
  rw [Document.faults, hpipelines, hoptions]
  rfl

theorem findsNames_of_relay_first :
    (relay .first).link 0 = .ok ((relay .first).linked 0) ∧
      ∃ p ∈ ((relay .first).linked 0).document.pipelines,
        Plan.RefersBack ((relay .first).hooks.plan p.steps) ∧
          ∀ (r : Runner) (run : Uuid) (started : Instant) (initial : Payload) (args : Value)
            (usage : Usage), r.FindsNames run started initial ((relay .first).hooks.plan p.steps)
              (.start args (relay .first).envMap) usage := by
  have hm : (relay .first).link 0 = .ok ((relay .first).linked 0) :=
    Document.link_eq_ok_iff.2 ⟨faults_relay .first, rfl⟩
  refine ⟨hm, _, List.mem_singleton_self _, ?_⟩
  refine (Document.findsNames_iff_ready hm (List.mem_singleton_self _)).2 ?_
  intro x _ g hg _
  refine ⟨fun hnone => absurd hnone (by decide), ?_⟩
  intro _ hlast
  have hfirst : ∀ g ∈ (relay .first).hooks.attached, g.2 = .first := by decide
  rw [hfirst g hg] at hlast
  cases hlast

theorem not_findsNames_of_relay_last :
    (relay .last).link 0 = .ok ((relay .last).linked 0) ∧
      ∃ p ∈ ((relay .last).linked 0).document.pipelines,
        ¬ Plan.RefersBack ((relay .last).hooks.plan p.steps) ∧
          ∀ (r : Runner) (run : Uuid) (started : Instant) (initial : Payload) (args : Value)
            (usage : Usage), ¬ r.FindsNames run started initial ((relay .last).hooks.plan p.steps)
              (.start args (relay .last).envMap) usage := by
  have href : (⟨"late", .named "late", []⟩ : Reference) ∈
      (Step.passing "early" [⟨"$\x7blate\x7d", some "x"⟩]).references := by
    simp [Step.references, Step.passing, Mapping.references, parse_late, Expr.references]
  refine ⟨Document.link_eq_ok_iff.2 ⟨faults_relay .last, rfl⟩, _, List.mem_singleton_self _, ?_, ?_⟩
  · intro hback
    obtain ⟨e, he, -⟩ := hback [] _ _ rfl rfl "late"
      (Step.mem_referencedNames_iff.2 ⟨_, href, rfl⟩)
    cases he
  · intro r run started initial args usage hfinds
    have hstart := hfinds _ _ _ _ (.here _ _ _) rfl _ href "late" rfl
    cases hstart.1

end PipelineEngine
