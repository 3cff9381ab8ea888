import PipelineEngine.Document.Hooks
import PipelineEngine.Model.Basic
import PipelineEngine.Run.Dialogue
import PipelineEngine.Run.Input
import PipelineEngine.Run.Limits
import PipelineEngine.Word

/-!
# Running pipelines

The steps of a pipeline run strictly in order, each with the outputs of those before it
in view.  The first step that fails halts the run, and its failure becomes the run's
outcome; only a cancelled run has no outcome.

A run is written as a dialogue over its plan: `runPlan` follows the entries one by one,
`invokeStep` holds one of them to the limits, and `execute` adds what comes before and
after, the interpretation of raw payloads and the first and last entries of the
journal.
-/

namespace PipelineEngine

/-! ## Attempts

Invoking a step's provider until it succeeds, fails for good or has been tried often
enough.  Only transient failures are followed by another attempt, after a pause that
grows from one to the next.  Every attempt gets the same input.
-/

/-- How the invocation of a step ended. -/
inductive InvocationEnd where
  | output (payload : Payload) (attempts : Nat)
  | failed (failure : ProviderFailure)
  | cancelled
  /-- The deadline of the run came first. -/
  | expired
deriving Inhabited

/-- The invocation of a step. -/
structure Invocation where
  result : InvocationEnd
  /-- The failed attempts that were followed by another one, or by a pause for it. -/
  retries : List (Nat × ProviderFailure)
deriving Inhabited

/-- The wait in milliseconds that stands for one that no clock can measure: thirty
years. -/
def farFutureMs : Nat := 86400 * 365 * 30 * 1000

/-- A number of seconds as a wait in milliseconds. -/
def waitMs (seconds : Nat) : Nat := if seconds < Word.bound 63 then seconds * 1000 else farFutureMs

/-- The end of an invocation whose last attempt got a reply. -/
def Reply.invocationEnd (reply : Reply) (step : String) (seconds attempt : Nat) : InvocationEnd :=
  match reply with
  | .returned output => .output output attempt
  | .failed failure => .failed failure
  | .timedOut => .failed (.timeout step seconds)
  | .cancelled => .cancelled
  | .expired => .expired

namespace Call

/-- Attempts number `attempt` and following, at most `left` of them after this one. -/
def attemptsFrom (call : Call) (seconds : Nat) (policy : RetryPolicy) (deadline : Option Nat) :
    (left attempt : Nat) → Dialogue Invocation
  | 0, attempt => do
    let reply ← Dialogue.invoke call (waitMs seconds) deadline
    return ⟨reply.invocationEnd call.step.name seconds attempt, []⟩
  | left + 1, attempt => do
    let reply ← Dialogue.invoke call (waitMs seconds) deadline
    match reply.invocationEnd call.step.name seconds attempt with
    | .failed failure =>
      if failure.isTransient then
        match ← Dialogue.pause (policy.delay attempt) deadline with
        | .elapsed =>
          let rest ← attemptsFrom call seconds policy deadline left (attempt + 1)
          return ⟨rest.result, (attempt, failure) :: rest.retries⟩
        | .cancelled => return ⟨.cancelled, [(attempt, failure)]⟩
        | .expired => return ⟨.expired, [(attempt, failure)]⟩
      else return ⟨.failed failure, []⟩
    | result => return ⟨result, []⟩

/-- Invokes a provider as often as a policy lets it. -/
def attempts (call : Call) (seconds : Nat) (policy : RetryPolicy) (deadline : Option Nat) :
    Dialogue Invocation :=
  call.attemptsFrom seconds policy deadline (policy.maxAttempts - 1) 1

end Call

/-! ## Runs -/

/-- Why a run has no outcome.  That its journal cannot be written is no such reason here: the
dialogue of the run is then not carried out any further (`Request.record`), and who had it
carried out is told.  A caller that can do without the run, as a delivery can, goes on from
there; the runs of column transforms keep no journal. -/
inductive RunError where
  | cancelled (pipeline : String)
  | unknownPipeline (pipeline : String)
deriving Repr, Inhabited, DecidableEq

def RunError.message : RunError → String
  | .cancelled pipeline => "Pipeline '" ++ pipeline ++ "' was cancelled"
  | .unknownPipeline pipeline => "Unknown pipeline '" ++ pipeline ++ "'"

/-- A finished run: its outcome and the context that it built. -/
structure Execution where
  run : Uuid
  outcome : Outcome
  context : Context
deriving Inhabited

/-- Why a step halted its run. -/
structure Halt where
  outcome : Outcome
  /-- The journal entry that the run ends with. -/
  kind : RunEventKind
deriving Inhabited

namespace Halt

def failed (step error : String) (output : Option Value) : Halt :=
  ⟨.failed step error output, .runFailed⟩

def limited (step : String) (violation : SafetyViolation) : Halt :=
  ⟨.failed step violation.message none, .safetyLimitReached⟩

end Halt

/-- How a step of a run ended. -/
inductive StepEnd where
  | completed (output : Payload) (usage : Usage)
  | halted (halt : Halt)
  | cancelled
deriving Inhabited

/-- How the steps of a run ended. -/
inductive RunEnd where
  | completed (body : Payload) (context : Context)
  | halted (halt : Halt) (context : Context)
  | cancelled (step : String)
deriving Inhabited

/-- What pipelines are run with. -/
structure Runner where
  providers : ProviderSet
  /-- The timeout in seconds of steps that name none. -/
  stepTimeout : Nat
  /-- The policy of steps that name none. -/
  retry : RetryPolicy
  limits : SafetyLimits
  /-- Whether runs are journaled. -/
  journal : Bool
deriving Repr, Inhabited, DecidableEq

namespace Runner

/-- A runner with the usual timeout, policy and limits. -/
def standard (providers : ProviderSet) : Runner := ⟨providers, 30, .standard, .standard, false⟩

/-- Writes a journal entry, if runs are journaled. -/
def record (r : Runner) (entry : JournalEntry) : Dialogue Unit :=
  if r.journal then Dialogue.record entry else pure ()

/-- Writes journal entries in order. -/
def recordAll (r : Runner) : List JournalEntry → Dialogue Unit
  | [] => pure ()
  | entry :: rest => do
    r.record entry
    r.recordAll rest

/-- Invokes the provider of a step. -/
def invoke (r : Runner) (step : Step) (input : Payload) (deadline : Option Nat) :
    Dialogue Invocation :=
  match r.providers.resolve step with
  | .error failure => pure ⟨.failed failure, []⟩
  | .ok (backend, reference) =>
    Call.attempts ⟨step, backend, reference, input⟩ (step.timeout r.stepTimeout)
      (step.retry.getD r.retry) deadline

/-- The milliseconds from one time to another. -/
def elapsedMs (start stop : Instant) : Nat := (stop.millisSince start).toNat

/-- What an invocation of a step that took some time means for its run. -/
def settle (r : Runner) (run : Uuid) (started : Instant) (usage : Usage) (step : Step) (key : String)
    (inputSize durationMs : Nat) (result : InvocationEnd) : Dialogue StepEnd := do
  match result with
  | .expired =>
    let violation :=
      SafetyViolation.runTimeout (elapsedMs started (← Dialogue.now) / 1000) r.limits.runTimeoutSeconds
    r.record (.stepFailed run step.name violation.message durationMs)
    return .halted (.limited step.name violation)
  | .cancelled => return .cancelled
  | .failed failure =>
    if failure.isCancelled then return .cancelled
    r.record (.stepFailed run step.name failure.message durationMs)
    return .halted (.failed step.name failure.message failure.output?)
  | .output output attempts =>
    match r.limits.checkPayload .output output.size with
    | .error violation =>
      r.record (.stepFailed run step.name violation.message durationMs)
      return .halted (.limited step.name violation)
    | .ok _ =>
      r.record (.stepCompleted run step.name key durationMs attempts)
      return .completed output (usage.record inputSize output.size)

/-- Runs one step under the limits of its run. -/
def invokeStep (r : Runner) (run : Uuid) (started : Instant) (usage : Usage) (step : Step)
    (input : Payload) : Dialogue StepEnd := do
  let elapsed := elapsedMs started (← Dialogue.now)
  match r.limits.check usage (elapsed / 1000) with
  | .error violation => return .halted (.limited step.name violation)
  | .ok _ =>
    match r.limits.checkPayload .input input.size with
    | .error violation => return .halted (.limited step.name violation)
    | .ok _ =>
      let key := EventKey.ofStep run step.name input.bytes
      r.record (.stepStarted run step.name key)
      let begun ← Dialogue.now
      let deadline := (← Dialogue.timer) + (waitMs r.limits.runTimeoutSeconds - elapsedMs started begun)
      let invocation ← r.invoke step input (some deadline)
      let duration := elapsedMs begun (← Dialogue.now)
      r.recordAll (invocation.retries.map fun (attempt, failure) =>
        .stepRetrying run step.name key attempt failure.message)
      r.settle run started usage step key input.size duration invocation.result

/-- Runs the entries of a plan in order. -/
def runPlan (r : Runner) (run : Uuid) (started : Instant) (initial : Payload) :
    List PlannedStep → Context → Usage → Dialogue RunEnd
  | [], ctx, _ => return .completed (ctx.lastOutput?.getD initial) ctx
  | entry :: rest, ctx, usage => do
    let step := entry.step
    if ← Dialogue.isCancelled then return .cancelled step.name
    match step.buildInput ctx initial with
    | .error e =>
      r.record (.stepFailed run step.name e.message 0)
      return .halted (.failed step.name e.message none) ctx
    | .ok input =>
      match ← r.invokeStep run started usage step input with
      | .completed output usage =>
        runPlan r run started initial rest (ctx.record step.name output entry.hook) usage
      | .halted halt => return .halted halt ctx
      | .cancelled => return .cancelled step.name

/-- Runs a plan after the interpretation of a raw payload by the parser, if there is
one. -/
def runAll (r : Runner) (run : Uuid) (started : Instant) (parser : Option Step)
    (plan : List PlannedStep) (ctx : Context) (initial : Payload) : Dialogue RunEnd :=
  match parser.filter fun _ => initial.isRaw with
  | none => r.runPlan run started initial plan ctx .none
  | some parser =>
    match parser.buildInput ctx initial with
    | .error e => return .halted (.failed parser.name e.message none) ctx
    | .ok input => do
      match ← r.invokeStep run started .none parser input with
      | .completed output usage => r.runPlan run started output plan ctx usage
      | .halted halt => return .halted halt ctx
      | .cancelled => return .cancelled parser.name

/-- The last journal entry of a run and what its caller gets. -/
def finish (r : Runner) (run : Uuid) (label : String) : RunEnd → Dialogue (Except RunError Execution)
  | .completed body ctx => do
    r.record (.runCompleted run label)
    return .ok ⟨run, .succeeded body, ctx⟩
  | .halted halt ctx => do
    r.record (.runHalted run label halt.kind (halt.outcome.error.getD ""))
    return .ok ⟨run, halt.outcome, ctx⟩
  | .cancelled step => do
    r.record (.runCancelled run label step)
    return .error (.cancelled label)

/-- Runs a plan under a label. -/
def execute (r : Runner) (label : String) (parser : Option Step) (plan : List PlannedStep)
    (ctx : Context) (initial : Payload) : Dialogue (Except RunError Execution) := do
  let run ← Dialogue.uuid
  let started ← Dialogue.now
  r.record (.runStarted run label)
  let ending ← r.runAll run started parser plan ctx initial
  r.finish run label ending

/-- Runs a pipeline of a model with the hooks around its steps. -/
def run (r : Runner) (m : Model) (pipeline : String) (args : Value) (initial : Payload) :
    Dialogue (Except RunError Execution) :=
  match m.pipeline? pipeline with
  | none => return .error (.unknownPipeline pipeline)
  | some p => r.execute pipeline p.parser (m.hooks.plan p.steps) (.start args m.env) initial

/-- Runs steps that belong to no pipeline, without hooks. -/
def runSteps (r : Runner) (label : String) (steps : List Step) (ctx : Context) (initial : Payload) :
    Dialogue (Except RunError Execution) :=
  r.execute label none (Plan.ofSteps steps) ctx initial

end Runner

end PipelineEngine
