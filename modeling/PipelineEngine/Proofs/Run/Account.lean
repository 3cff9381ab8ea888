import PipelineEngine.Proofs.Journal.Course
import PipelineEngine.Proofs.Run.Entries

/-!
# What a run writes

A run of a plan follows the course of a journal, in any surroundings: whatever providers
answer, whenever the run is cancelled and whatever time passes.

* `Runner.stepCourse_invokeStep`: all that an invocation of a step may write, one
  constructor of `StepCourse` for each way that it ends.
* `Runner.account_runPlan`, by induction on the plan, and `Runner.account_runAll`: what the
  steps of a run write and what it comes to.
* `Runner.journal_course`: the journal of a run from its first entry to its last.
-/

namespace PipelineEngine

/-! ## One step -/

open Dialogue JournalEntry

/-- The last entry of a run, and what its caller gets. -/
def RunEnd.entry (run : Uuid) (label : String) : RunEnd → JournalEntry
  | .completed _ _ => .runCompleted run label
  | .halted halt _ => .runHalted run label halt.kind (halt.outcome.error.getD "")
  | .cancelled step => .runCancelled run label step

def RunEnd.result (run : Uuid) (label : String) : RunEnd → Except RunError Execution
  | .completed body ctx => .ok ⟨run, .succeeded body, ctx⟩
  | .halted halt ctx => .ok ⟨run, halt.outcome, ctx⟩
  | .cancelled _ => .error (.cancelled label)

namespace Runner

/-- The limit that does not let a step start. -/
def violation? (r : Runner) (started : Instant) (usage : Usage) (input : Payload)
    (now : Instant) : Option SafetyViolation :=
  match r.limits.check usage (elapsedMs started now / 1000) with
  | .error violation => some violation
  | .ok _ =>
    match r.limits.checkPayload .input input.size with
    | .error violation => some violation
    | .ok _ => none

/-- What an invocation of a step writes and how it ends, when a limit does not let the step
start and when none does so. -/
inductive StepCourse (run : Uuid) (step : String) :
    Option SafetyViolation → List JournalEntry → StepEnd → Prop
  | refused (violation : SafetyViolation) :
    StepCourse run step (some violation) [] (.halted (.limited step violation))
  | completed (key : String) (retries : List (Nat × ProviderFailure)) (durationMs attempts : Nat)
      (output : Payload) (usage : Usage) :
    StepCourse run step none
      (opening run step key retries ++ [.stepCompleted run step key durationMs attempts])
      (.completed output usage)
  | failed (key : String) (retries : List (Nat × ProviderFailure)) (error : String)
      (durationMs : Nat) (output : Option Value) :
    StepCourse run step none
      (opening run step key retries ++ [.stepFailed run step error durationMs])
      (.halted (.failed step error output))
  | limited (key : String) (retries : List (Nat × ProviderFailure)) (violation : SafetyViolation)
      (durationMs : Nat) :
    StepCourse run step none
      (opening run step key retries ++ [.stepFailed run step violation.message durationMs])
      (.halted (.limited step violation))
  | cancelled (key : String) (retries : List (Nat × ProviderFailure)) :
    StepCourse run step none (opening run step key retries) .cancelled

section
variable {σ : Type} (answer : (r : Request) → σ → r.Answer × σ) {r : Runner}
variable (run : Uuid) (started : Instant)

/-- What is written once the provider of a step has come to an end. -/
theorem stepCourse_settle (hjournal : r.journal = true) (usage : Usage) (step : Step)
    (key : String) (retries : List (Nat × ProviderFailure)) (inputSize durationMs : Nat)
    (result : InvocationEnd) (s : σ) :
    StepCourse run step.name none
      (opening run step.name key retries ++
        (r.settle run started usage step key inputSize durationMs result).entries answer s)
      ((r.settle run started usage step key inputSize durationMs result).runWith answer s).1 := by
  cases result with
  | expired =>
    simp only [settle, entries_seq, runWith_seq, entries_record answer hjournal]
    exact .limited key retries _ durationMs
  | cancelled =>
    simp only [settle, entries_pure, List.append_nil]
    exact .cancelled key retries
  | failed failure =>
    rw [settle]
    split
    · rw [entries_pure, List.append_nil]
      exact .cancelled key retries
    · rw [entries_seq, runWith_seq, entries_record answer hjournal]
      exact .failed key retries _ durationMs _
  | output output attempts =>
    rw [settle]
    split
    · rw [entries_seq, runWith_seq, entries_record answer hjournal]
      exact .limited key retries _ durationMs
    · rw [entries_seq, runWith_seq, entries_record answer hjournal]
      exact .completed key retries durationMs attempts output _

theorem stepCourse_invokeStep (hjournal : r.journal = true) (usage : Usage) (step : Step)
    (input : Payload) (s : σ) :
    StepCourse run step.name (r.violation? started usage input (answer .now s).1)
      ((r.invokeStep run started usage step input).entries answer s)
      ((r.invokeStep run started usage step input).runWith answer s).1 := by
  rw [invokeStep, entries_seq, runWith_seq, violation?]
  cases hcheck : r.limits.check usage (elapsedMs started (answer .now s).1 / 1000) with
  | error violation =>
    simp only [runWith_now, hcheck]
    exact .refused violation
  | ok _ =>
    cases hsize : r.limits.checkPayload .input input.size with
    | error violation =>
      simp only [runWith_now, hcheck]
      exact .refused violation
    | ok _ =>
      simp only [runWith_now, hcheck, entries_seq, runWith_seq, entries_now, entries_timer,
        entries_record answer hjournal, entries_recordAll answer hjournal, entries_invoke,
        List.nil_append]
      exact stepCourse_settle answer run started hjournal usage step _ _ _ _ _ _

end

/-! ## A run -/

/-- What a run writes from a context with so many outputs on, and what it returns.  The steps
that complete leave an output each, but for so many of them; `lost` tells whether the run halts
and names no step in its journal. -/
structure Account (run : Uuid) (label : String) (outputs unrecorded : Nat) (lost : Bool)
    (written : List JournalEntry) (result : Except RunError Execution) : Prop where
  course : ∃ n, Course run label n written result ∧
    ∀ e, result = .ok e → outputs + n = e.context.steps.length + unrecorded
  silent_iff : Silent written result ↔ lost = true

section
variable {run : Uuid} {label : String} {outputs unrecorded : Nat} {lost : Bool}
variable {written block : List JournalEntry} {result : Except RunError Execution}

/-- A step completes, and leaves an output or not. -/
theorem Account.after {outputs' unrecorded' : Nat}
    (h : Account run label outputs' unrecorded' lost written result) (hblock : IsBlock run block)
    (hcounts : outputs' + unrecorded = outputs + 1 + unrecorded') :
    Account run label outputs unrecorded lost (block ++ written) result := by
  obtain ⟨n, hcourse, hcount⟩ := h.course
  refine ⟨⟨n + 1, .block hblock hcourse, ?_⟩, (silent_block_append_iff hblock).trans h.silent_iff⟩
  intro e he
  have := hcount e he
  omega

theorem Account.of_ok {e : Execution} (htail : IsTail run label written (.ok e))
    (hsilent : Silent written (.ok e) ↔ lost = true) :
    Account run label e.context.steps.length 0 lost written (.ok e) := by
  refine ⟨⟨0, .tail htail, ?_⟩, hsilent⟩
  rintro e' ⟨⟩
  rfl

theorem Account.of_error {error : RunError} (htail : IsTail run label written (.error error))
    (outputs : Nat) : Account run label outputs 0 false written (.error error) := by
  refine ⟨⟨0, .tail htail, ?_⟩, iff_of_false (not_silent_error error) Bool.false_ne_true⟩
  rintro e ⟨⟩

/-- A step that halts its run. -/
theorem StepCourse.account_halted {step : String} {refusal : Option SafetyViolation} {halt : Halt}
    (h : StepCourse run step refusal written (.halted halt)) (ctx : Context) :
    Account run label ctx.steps.length 0 refusal.isSome
      (written ++ [(RunEnd.halted halt ctx).entry run label])
      ((RunEnd.halted halt ctx).result run label) := by
  cases h with
  | refused violation =>
    exact .of_ok (.refused step violation ctx)
      (iff_of_true (silent_runHalted (by decide) _ _ _ _ _) rfl)
  | failed key retries error durationMs output =>
    exact .of_ok (.failed step key retries error durationMs output ctx)
      (iff_of_false (not_silent_append_stepFailed _ _ _ _ _) Bool.false_ne_true)
  | limited key retries violation durationMs =>
    exact .of_ok (.limited step key retries violation durationMs ctx)
      (iff_of_false (not_silent_append_stepFailed _ _ _ _ _) Bool.false_ne_true)

/-- A step that is cancelled. -/
theorem StepCourse.account_cancelled {step : String} {refusal : Option SafetyViolation}
    (h : StepCourse run step refusal written .cancelled) (outputs : Nat) :
    Account run label outputs 0 refusal.isSome
      (written ++ [(RunEnd.cancelled step).entry run label])
      ((RunEnd.cancelled step).result run label) := by
  cases h with
  | cancelled key retries => exact .of_error (.interrupted step key retries) outputs

theorem StepCourse.isBlock {step : String} {refusal : Option SafetyViolation} {output : Payload}
    {usage : Usage} (h : StepCourse run step refusal written (.completed output usage)) :
    IsBlock run written ∧ refusal = none := by
  cases h with
  | completed key retries durationMs attempts => exact ⟨⟨_, _, _, _, _⟩, rfl⟩

end

section
variable {σ : Type} (answer : (r : Request) → σ → r.Answer × σ) {r : Runner}
variable (run : Uuid) (started : Instant)

/-- Whether a run of a plan comes to a step that a limit does not let start. -/
def refuses (r : Runner) (initial : Payload) :
    List PlannedStep → Context → Usage → σ → Bool
  | [], _, _, _ => false
  | entry :: rest, ctx, usage, s =>
    if (answer .isCancelled s).1 then false
    else
      match entry.step.buildInput ctx initial with
      | .error _ => false
      | .ok input =>
        let s := (answer .isCancelled s).2
        (r.violation? started usage input (answer .now s).1).isSome ||
          match (r.invokeStep run started usage entry.step input).runWith answer s with
          | (.completed output usage, s) =>
            refuses r initial rest (ctx.record entry.step.name output entry.hook) usage s
          | _ => false

theorem account_runPlan (hjournal : r.journal = true) (label : String) (initial : Payload)
    (plan : List PlannedStep) (ctx : Context) (usage : Usage) (s : σ) :
    Account run label ctx.steps.length 0 (r.refuses answer run started initial plan ctx usage s)
      ((r.runPlan run started initial plan ctx usage).entries answer s ++
        [((r.runPlan run started initial plan ctx usage).runWith answer s).1.entry run label])
      (((r.runPlan run started initial plan ctx usage).runWith answer s).1.result run label) := by
  -- What a step leaves behind changes what the rest of the plan starts from.
  induction plan generalizing ctx usage s with
  | nil =>
    exact .of_ok (.completed _ ctx)
      (iff_of_false (not_silent_succeeded _ ctx) Bool.false_ne_true)
  | cons entry rest ih =>
    rw [runPlan, refuses]
    simp only [entries_seq, runWith_seq, entries_isCancelled, runWith_isCancelled, List.nil_append]
    by_cases hcancelled : (answer .isCancelled s).1 = true
    · simp only [hcancelled, if_true]
      exact .of_error (.cancelled entry.step.name) ctx.steps.length
    · simp only [hcancelled, Bool.false_eq_true, if_false]
      generalize (answer .isCancelled s).2 = s
      cases hinput : entry.step.buildInput ctx initial with
      | error e =>
        simp only [entries_seq, runWith_seq, entries_record answer hjournal]
        exact .of_ok (.unbuilt entry.step.name e.message ctx)
          (iff_of_false (not_silent_append_stepFailed [] _ _ _ _) Bool.false_ne_true)
      | ok input =>
        have hstep := stepCourse_invokeStep answer run started hjournal usage entry.step input s
        simp only [entries_seq, runWith_seq]
        generalize (r.invokeStep run started usage entry.step input).entries answer s = written
          at hstep ⊢
        generalize (r.invokeStep run started usage entry.step input).runWith answer s = ended
          at hstep ⊢
        obtain ⟨ended, s'⟩ := ended
        -- Only a step that completes is followed by the rest of the plan.
        cases ended with
        | completed output usage' =>
          obtain ⟨hblock, hrefusal⟩ := hstep.isBlock
          rw [hrefusal, List.append_assoc]
          have hrest := ih (ctx.record entry.step.name output entry.hook) usage' s'
          refine hrest.after hblock ?_
          simp [Context.record]
        | halted halt =>
          rw [Bool.or_false, entries_pure, List.append_nil]
          exact hstep.account_halted ctx
        | cancelled =>
          rw [Bool.or_false, entries_pure, List.append_nil]
          exact hstep.account_cancelled ctx.steps.length

end

/-- How a journaled run sets out: its identifier, the time that it starts at, and the
surroundings once its first entry is written. -/
structure Outset (σ : Type) where
  run : Uuid
  started : Instant
  after : σ

section
variable {σ : Type} (answer : (r : Request) → σ → r.Answer × σ) {r : Runner}

def outset (label : String) (s : σ) : Outset σ :=
  let run := answer .uuid s
  let started := answer .now run.2
  ⟨run.1, started.1, (answer (.record (.runStarted run.1 label)) started.2).2⟩

/-- Whether a run reads its payload with a parser, and the parser completes. -/
def parses (r : Runner) (o : Outset σ) (parser : Option Step) (ctx : Context)
    (initial : Payload) : Bool :=
  match parser.filter fun _ => initial.isRaw with
  | none => false
  | some parser =>
    match parser.buildInput ctx initial with
    | .error _ => false
    | .ok input =>
      match ((r.invokeStep o.run o.started .none parser input).runWith answer o.after).1 with
      | .completed _ _ => true
      | _ => false

/-- Whether the journal of a run does not name the step that halts it: a parser whose input
cannot be built, or a step that a limit does not let start. -/
def loses (r : Runner) (o : Outset σ) (parser : Option Step) (plan : List PlannedStep)
    (ctx : Context) (initial : Payload) : Bool :=
  match parser.filter fun _ => initial.isRaw with
  | none => r.refuses answer o.run o.started initial plan ctx .none o.after
  | some parser =>
    match parser.buildInput ctx initial with
    | .error _ => true
    | .ok input =>
      (r.violation? o.started .none input (answer .now o.after).1).isSome ||
        match (r.invokeStep o.run o.started .none parser input).runWith answer o.after with
        | (.completed output usage, s) => r.refuses answer o.run o.started output plan ctx usage s
        | _ => false

theorem account_runAll (hjournal : r.journal = true) (o : Outset σ) (label : String)
    (parser : Option Step) (plan : List PlannedStep) (ctx : Context) (initial : Payload) :
    Account o.run label ctx.steps.length (r.parses answer o parser ctx initial).toNat
      (r.loses answer o parser plan ctx initial)
      ((r.runAll o.run o.started parser plan ctx initial).entries answer o.after ++
        [((r.runAll o.run o.started parser plan ctx initial).runWith answer o.after).1.entry
          o.run label])
      (((r.runAll o.run o.started parser plan ctx initial).runWith answer o.after).1.result
        o.run label) := by
  obtain ⟨run, started, s⟩ := o
  rw [runAll, parses, loses]
  cases parser.filter fun _ => initial.isRaw with
  | none => exact account_runPlan answer run started hjournal label initial plan ctx .none s
  | some parser =>
    dsimp only
    cases parser.buildInput ctx initial with
    | error e =>
      exact .of_ok (.unread parser.name e.message ctx)
        (iff_of_true (silent_runHalted (by decide) _ _ _ _ _) rfl)
    | ok input =>
      have hstep := stepCourse_invokeStep answer run started hjournal .none parser input s
      simp only [entries_seq, runWith_seq]
      generalize (r.invokeStep run started .none parser input).entries answer s = written
        at hstep ⊢
      generalize (r.invokeStep run started .none parser input).runWith answer s = ended at hstep ⊢
      obtain ⟨ended, s'⟩ := ended
      cases ended with
      | completed output usage =>
        -- The output of the parser is the payload of the plan and joins no context.
        obtain ⟨hblock, hrefusal⟩ := hstep.isBlock
        rw [hrefusal, List.append_assoc]
        have hplan := account_runPlan answer run started hjournal label output plan ctx usage s'
        exact hplan.after hblock rfl
      | halted halt =>
        rw [Bool.or_false, entries_pure, List.append_nil]
        exact hstep.account_halted ctx
      | cancelled =>
        rw [Bool.or_false, entries_pure, List.append_nil]
        exact hstep.account_cancelled ctx.steps.length

theorem entries_finish (hjournal : r.journal = true) (run : Uuid) (label : String)
    (ending : RunEnd) (s : σ) :
    (r.finish run label ending).entries answer s = [ending.entry run label] := by
  cases ending <;> rw [finish, entries_seq, entries_record answer hjournal] <;> rfl

theorem runWith_finish (run : Uuid) (label : String) (ending : RunEnd) (s : σ) :
    ((r.finish run label ending).runWith answer s).1 = ending.result run label := by
  cases ending <;> rw [finish, runWith_seq] <;> rfl

/-- A journaled run gives an account of itself after its first entry. -/
theorem account_execute (hjournal : r.journal = true) (label : String) (parser : Option Step)
    (plan : List PlannedStep) (ctx : Context) (initial : Payload) (s : σ) :
    ∃ written,
      (r.execute label parser plan ctx initial).entries answer s =
        .runStarted (outset answer label s).run label :: written ∧
      Account (outset answer label s).run label ctx.steps.length
        (r.parses answer (outset answer label s) parser ctx initial).toNat
        (r.loses answer (outset answer label s) parser plan ctx initial)
        written ((r.execute label parser plan ctx initial).runWith answer s).1 := by
  have haccount := account_runAll answer hjournal (outset answer label s) label parser plan ctx
    initial
  have hresult : ((r.execute label parser plan ctx initial).runWith answer s).1 =
      ((r.runAll (outset answer label s).run (outset answer label s).started parser plan ctx
        initial).runWith answer (outset answer label s).after).1.result
          (outset answer label s).run label := by
    simp only [execute, runWith_seq, runWith_uuid, runWith_now, runWith_record answer hjournal,
      runWith_finish answer]
    rfl
  rw [hresult]
  refine ⟨_, ?_, haccount⟩
  simp only [execute, entries_seq, entries_uuid, runWith_uuid, entries_now, runWith_now,
    entries_record answer hjournal, runWith_record answer hjournal, entries_finish answer hjournal,
    List.nil_append]
  rfl

/-- The journal of a run: its start, a block for every step that completes, and a tail that
goes with what the run returns.  Its last entry closes the run, and no other entry does. -/
theorem journal_course (hjournal : r.journal = true) (label : String) (parser : Option Step)
    (plan : List PlannedStep) (ctx : Context) (initial : Payload) (s : σ) :
    ∃ (run : Uuid) (blocks : List (List JournalEntry)) (tail : List JournalEntry),
      (r.execute label parser plan ctx initial).entries answer s =
          .runStarted run label :: (blocks.flatten ++ tail) ∧
        (∀ block ∈ blocks, IsBlock run block) ∧
        IsTail run label tail ((r.execute label parser plan ctx initial).runWith answer s).1 ∧
        ∃ front last,
          (r.execute label parser plan ctx initial).entries answer s = front ++ [last] ∧
            last.kind.isTerminal = true ∧ ∀ entry ∈ front, entry.kind.isTerminal = false := by
  obtain ⟨written, hentries, haccount⟩ :=
    account_execute answer hjournal label parser plan ctx initial s
  obtain ⟨n, hcourse, -⟩ := haccount.course
  obtain ⟨blocks, tail, hwritten, -, hblocks, htail⟩ := hcourse.exists_blocks
  obtain ⟨front, last, hfront, hlast, hopen⟩ := hcourse.exists_last
  refine ⟨_, blocks, tail, hwritten ▸ hentries, hblocks, htail, ?_⟩
  refine ⟨.runStarted _ label :: front, last, by rw [hentries, hfront]; rfl, hlast, ?_⟩
  exact List.forall_mem_cons.2 ⟨rfl, hopen⟩

end

/-- A runner with the built-in functions that journals its runs and halts them after some
steps. -/
def journaling (maxSteps : Nat) : Runner :=
  { standard .builtinOnly with
    limits := { SafetyLimits.standard with maxSteps := maxSteps }
    journal := true }

/-- A run of two steps with a parser, of which all but the second step give what they are
given. -/
def relayed (maxSteps : Nat) (second : String) (initial : Payload) :
    Dialogue (Except RunError Execution) :=
  (journaling maxSteps).execute "p" (some ⟨"read", "builtin:identity", [], none, none⟩)
    (Plan.ofSteps [⟨"one", "builtin:identity", [], none, none⟩, ⟨"two", second, [], none, none⟩])
    (.start .null []) initial

/-- The journal of a run that is halted before its second step. -/
theorem journal_course_relayed :
    ((relayed 1 "builtin:identity" (.parsed (.bool true))).entries prompt ()).map
        (fun entry => entry.kind) =
        [.runStarted, .stepStarted, .stepCompleted, .safetyLimitReached] ∧
      (journaling 1).journal = true ∧
      ∃ (run : Uuid) (blocks : List (List JournalEntry)) (tail : List JournalEntry),
        (relayed 1 "builtin:identity" (.parsed (.bool true))).entries prompt () =
            .runStarted run "p" :: (blocks.flatten ++ tail) ∧
          (∀ block ∈ blocks, IsBlock run block) ∧
          IsTail run "p" tail
            ((relayed 1 "builtin:identity" (.parsed (.bool true))).runWith prompt ()).1 ∧
          ∃ front last,
            (relayed 1 "builtin:identity" (.parsed (.bool true))).entries prompt () =
                front ++ [last] ∧
              last.kind.isTerminal = true ∧ ∀ entry ∈ front, entry.kind.isTerminal = false := by
  have hjournal : (journaling 1).journal = true := rfl
  exact ⟨rfl, hjournal, journal_course prompt hjournal _ _ _ _ _ _⟩

end Runner

end PipelineEngine
