import PipelineEngine.Proofs.Expression.Evaluate
import PipelineEngine.Proofs.Run.Reached

/-!
# Steps find what they refer to

Linking holds the place of a step in its plan against the places of the steps that it
refers to; a run looks into what it has recorded.  The two agree because a run that gets
to a place has recorded exactly the entries before it, in order.

* `Context.Recorded`: the outputs of a context are those of the entries of a plan.
* `Reference.missing_of_find`: a reference fails for want of a step only if the context
  has no output where it looks.
* `Document.finds_of_link`: the explicit steps of a linked document find every output that
  they refer to.
-/

namespace PipelineEngine

/-! ## What has been recorded -/

namespace Context

/-- The context has an output for each of the entries, in their order, and no others. -/
def Recorded (ctx : Context) (front : List PlannedStep) : Prop :=
  ctx.steps.map (fun s => (s.name, s.hook)) = front.map fun e => (e.step.name, e.hook)

variable {ctx : Context} {front : List PlannedStep}

/-- A name has an output when it is that of an entry. -/
theorem Recorded.isSome_output?_iff (h : ctx.Recorded front) {name : String} :
    (ctx.output? name).isSome ↔ ∃ e ∈ front, e.step.name = name := by
  have hnames : ctx.steps.map (·.name) = front.map (·.step.name) := by
    simpa [Function.comp_def] using congrArg (List.map Prod.fst) h
  rw [Context.isSome_output?_iff, hnames]
  exact List.mem_map

/-- A position has an output when so many explicit steps are among the entries. -/
theorem Recorded.isSome_outputAt?_iff (h : ctx.Recorded front) {position : Nat} :
    (ctx.outputAt? position).isSome ↔ position < front.countP fun e => !e.hook := by
  have hcount : ctx.explicit.length = front.countP fun e => !e.hook := by
    have hhooks : ctx.steps.map (·.hook) = front.map (·.hook) := by
      simpa [Function.comp_def] using congrArg (List.map Prod.snd) h
    calc ctx.explicit.length
        = (ctx.steps.map (·.hook)).countP fun hook => !hook := by
          rw [explicit, ← List.countP_eq_length_filter, List.countP_map]
          rfl
      _ = front.countP fun e => !e.hook := by
          rw [hhooks, List.countP_map]
          rfl
  rw [outputAt?, Option.isSome_map, ← hcount]
  simp

end Context

/-! ## References that find no step -/

namespace Reference

/-- Why a reference to a position has no value when no step has taken it. -/
def noStepAt (position : Nat) : String := "no step has run at position " ++ Numeral.decimal position

/-- The reasons that name a step that has not run. -/
inductive Missing : String → Prop where
  | position (position : Nat) : Missing (noStepAt position)
  | name (name : String) : Missing (noPriorStep name)

/-- No other reason starts like these. -/
theorem Missing.toList_take {reason : String} (h : Missing reason) :
    reason.toList.take 4 = ['n', 'o', ' ', 's'] ∨ reason.toList.take 4 = ['n', 'o', ' ', 'p'] := by
  cases h with
  | position position =>
    unfold noStepAt
    generalize Numeral.decimal position = digits
    simp
  | name name =>
    unfold noPriorStep
    simp

theorem Missing.toList_head? {reason : String} (h : Missing reason) :
    reason.toList.head? = some 'n' := by
  rcases h.toList_take with htake | htake
  · simpa [List.head?_take] using congrArg List.head? htake
  · simpa [List.head?_take] using congrArg List.head? htake

/-- Where a reference fails for want of a step, the context has no output for it. -/
theorem missing_of_find {r : Reference} {ctx : Context} {reason : String}
    (h : r.find ctx = .error reason) (hmissing : Missing reason) :
    (∃ position, r.root = .pipeline position ∧ ctx.outputAt? position = none) ∨
      ∃ name, r.root = .named name ∧ ctx.output? name = none := by
  have hwalk : ∀ (path : List PathSegment) (v : Value), v.walk path ≠ .error reason :=
    Value.walk_ne_of_head hmissing.toList_head?
  have htake := hmissing.toList_take
  unfold find at h
  split at h
  · exact absurd h (hwalk _ _)
  · split at h
    · cases h
    · split at h
      · exact absurd h (hwalk _ _)
      · cases h
        simp at htake
    · cases h
      simp at htake
  · rename_i position hroot
    split at h
    · exact absurd h (hwalk _ _)
    · rename_i hnone
      exact Or.inl ⟨position, hroot, hnone⟩
  · split at h
    · -- The walk through an outcome is one through its body or its flag.
      unfold OutcomeView.walk at h
      split at h
      · split at h <;> exact absurd h (hwalk _ _)
      · exact absurd h (hwalk _ _)
    · cases h
      simp at htake
  · rename_i name hroot
    split at h
    · exact absurd h (hwalk _ _)
    · rename_i hnone
      exact Or.inr ⟨name, hroot, hnone⟩

end Reference

/-- Every output to which the mappings of a step refer is there. -/
structure Step.Finds (s : Step) (ctx : Context) : Prop where
  position : ∀ r ∈ s.references, ∀ position, r.root = .pipeline position →
    (ctx.outputAt? position).isSome
  name : ∀ r ∈ s.references, ∀ name, r.root = .named name → (ctx.output? name).isSome

/-- The input of a step that finds its outputs does not fail for want of one. -/
theorem Step.Finds.buildInput_ne {s : Step} {ctx : Context} (h : s.Finds ctx) (initial : Payload)
    (reference : String) {reason : String} (hmissing : Reference.Missing reason) :
    s.buildInput ctx initial ≠ .error (.unresolved ⟨reference, reason⟩) := by
  intro hfails
  obtain ⟨r, hr, hresolve⟩ := Step.exists_reference_of_unresolved hfails
  obtain ⟨reason', hfind, heq⟩ := Fallible.mapError_eq_error_iff.1 hresolve
  cases heq
  rcases Reference.missing_of_find hfind hmissing with
    ⟨position, hroot, hnone⟩ | ⟨name, hroot, hnone⟩
  · have hsome := h.position r hr position hroot
    rw [hnone] at hsome
    cases hsome
  · have hsome := h.name r hr name hroot
    rw [hnone] at hsome
    cases hsome

/-! ## Plans of linked documents -/

/-- The plans that the runs of a model go through: those of its pipelines, and the steps of
the phases of its columns. -/
inductive Model.HasPlan (m : Model) : List PlannedStep → Prop where
  | pipeline {p : Pipeline} (hp : p ∈ m.document.pipelines) : m.HasPlan (m.hooks.plan p.steps)
  | column {t : Table} (ht : t ∈ m.document.tables) {c : Column} (hc : c ∈ t.columns)
      (phase : ColumnPhase) : m.HasPlan (Plan.ofSteps (c.phaseSteps phase))

namespace Document

variable {d : Document} {epoch : Nat} {m : Model}

/-- Linking finds nothing wrong with the explicit steps of any plan. -/
theorem faults_of_hasPlan (h : d.link epoch = .ok m) {plan : List PlannedStep}
    (hplan : m.HasPlan plan) : ∃ scope withHooks, Plan.faults d scope plan withHooks = [] := by
  have hpipelines := (pipelineFaults_of_link h).2
  have hphases := fun t ht c hc => phaseFaults_of_link h (t := t) ht (c := c) hc
  obtain rfl := (link_eq_ok_iff.1 h).2
  cases hplan with
  | @pipeline p hp =>
    obtain ⟨scope, hplan⟩ := (hpipelines p hp).plan
    exact ⟨scope, false, hplan⟩
  | @column t ht c hc phase => exact ⟨_, _, hphases t ht c hc phase⟩

/-- In a linked document, each explicit step of a pipeline and each step of a phase of a
column finds every output that its mappings refer to as soon as the entries before it have
been recorded, and its input cannot fail for want of one.  Every run that gets to the step
has recorded exactly those. -/
theorem finds_of_link (h : d.link epoch = .ok m) {plan : List PlannedStep} (hplan : m.HasPlan plan)
    {front back : List PlannedStep} {entry : PlannedStep} (hsplit : plan = front ++ entry :: back)
    (hexplicit : entry.hook = false) :
    (∀ ctx : Context, ctx.Recorded front → entry.step.Finds ctx ∧
        ∀ initial reference reason, Reference.Missing reason →
          entry.step.buildInput ctx initial ≠ .error (.unresolved ⟨reference, reason⟩)) ∧
      ∀ (r : Runner) (run : Uuid) (started : Instant) (initial : Payload) (args : Value)
        (usage : Usage) (ctx : Context) (usage' : Usage),
        r.Reaches run started initial plan (.start args m.env) usage (entry :: back) ctx usage' →
          ctx.Recorded front := by
  obtain ⟨scope, withHooks, hfaults⟩ := faults_of_hasPlan h hplan
  constructor
  · intro ctx hctx
    have hfinds : entry.step.Finds ctx := by
      constructor
      · intro r hr position hroot
        exact hctx.isSome_outputAt?_iff.2
          (Plan.lt_countP_of_faults hfaults hsplit (Or.inr hexplicit) hr hroot)
      · intro r hr name hroot
        exact hctx.isSome_output?_iff.2 (Plan.exists_earlier_of_faults hfaults hsplit
          (Or.inr hexplicit) (Step.mem_referencedNames_iff.2 ⟨r, hr, hroot⟩))
    exact ⟨hfinds, fun initial reference reason => hfinds.buildInput_ne initial reference⟩
  · intro r run started initial args usage ctx usage' hreaches
    obtain ⟨front', hfront, -, hsteps⟩ := hreaches.exists_recorded
    have hsame : front' = front := by
      rw [hsplit] at hfront
      exact (List.append_cancel_right hfront).symm
    rw [hsame] at hsteps
    simpa [Context.Recorded, Context.start] using hsteps

end Document

/-! ### A step that refers to a position among hooks -/

/-- The second of two steps, which refers to the first one by its position and to the hook
around both by its name. -/
def second : Step :=
  .passing "two" [⟨"$\x7bpipeline[0]\x7d", some "before"⟩, ⟨"$\x7bstamp\x7d", some "stamp"⟩]

/-- The pipeline of the two steps. -/
def pair : Pipeline := ⟨"p", [.passing "one" [], second], none⟩

/-- The pipeline with a hook before each of its steps. -/
def stamped : Document :=
  ⟨[], [], [], ⟨⟨[], [], ⟨[⟨.passing "stamp" [], some .each⟩], []⟩⟩, none, none, [pair], []⟩, []⟩

theorem parse_stamp :
    Expr.parseMapping "$\x7bstamp\x7d" = .ok (.ref ⟨"stamp", .named "stamp", []⟩) := by
  have hparse : Expr.parseMapping "$\x7bstamp\x7d" =
      .ok (.ref ⟨String.ofList ['s', 't', 'a', 'm', 'p'],
        .named (String.ofList ['s', 't', 'a', 'm', 'p']), []⟩) :=
    Expr.parseMapping_of_name rfl (by decide) (List.all_eq_true.1 rfl) (by decide)
  exact hparse

theorem parse_firstPosition :
    Expr.parseMapping "$\x7bpipeline[0]\x7d" = .ok (.ref ⟨"pipeline[0]", .pipeline 0, []⟩) := by
  have hindex : ∀ offset, Reference.readIndex offset ['0', ']'] =
      .ok (0, offset + 2, ⟨[], by decide⟩) := fun _ => rfl
  have hread : Reference.read 2 "pipeline[0]".toList = .ok ⟨"pipeline[0]", .pipeline 0, []⟩ := by
    have htrim : Text.trim "pipeline[0]".toList = "pipeline[0]".toList := rfl
    have htake : "pipeline[0]".toList.takeWhile isNameChar = "pipeline".toList := rfl
    have hdrop : "pipeline[0]".toList.dropWhile isNameChar = ['[', '0', ']'] := rfl
    rw [Reference.read]
    simp only [htrim, htake, hdrop]
    show (Reference.readIndex _ _ >>= _) = _
    rw [hindex]
    simp [Reference.readSegments, bind, Except.bind, pure, Except.pure]
  exact Expr.parseMapping_of_read rfl (by decide) hread

theorem faults_stamped : stamped.faults = [] := by
  have hone : ∀ scope, Plan.stepFaults stamped scope (stamped.hooks.plan pair.steps) 1
      ⟨.passing "one" [], false⟩ = [] := by
    intro scope
    rw [Plan.stepFaults]
    rfl
  have hsecond : ∀ scope, Plan.stepFaults stamped scope (stamped.hooks.plan pair.steps) 3
      ⟨second, false⟩ = [] := by
    intro scope
    rw [Plan.stepFaults]
    simp only [second, Step.passing, List.flatMap_cons, Plan.mappingFaults, parse_stamp,
      parse_firstPosition]
    rfl
  have hpipelines : stamped.pipelineFaults = [] := by
    show (Plan.stepFaults _ _ (stamped.hooks.plan pair.steps) 1 _ ++
      (Plan.stepFaults _ _ (stamped.hooks.plan pair.steps) 3 _ ++ [])) ++ [] ++ [] = []
    rw [hone, hsecond]
    rfl
  rw [Document.faults, hpipelines]
  rfl

theorem finds_of_stamped :
    stamped.link 0 = .ok (stamped.linked 0) ∧
      ∀ a b c : Payload, second.Finds ((((Context.start .null []).record "stamp" a true).record
        "one" b false).record "stamp" c true) := by
  have hm : stamped.link 0 = .ok (stamped.linked 0) :=
    Document.link_eq_ok_iff.2 ⟨faults_stamped, rfl⟩
  have hplan : (stamped.linked 0).HasPlan (stamped.hooks.plan pair.steps) :=
    .pipeline (p := pair) (List.mem_singleton_self _)
  have hsplit : stamped.hooks.plan pair.steps = [⟨.passing "stamp" [], true⟩,
      ⟨.passing "one" [], false⟩, ⟨.passing "stamp" [], true⟩] ++ ⟨second, false⟩ :: [] := rfl
  refine ⟨hm, fun a b c => ((Document.finds_of_link hm hplan hsplit rfl).1 _ ?_).1⟩
  simp [Context.Recorded, Context.start, Context.record, Step.passing]

end PipelineEngine
