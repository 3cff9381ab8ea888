import PipelineEngine.Proofs.Fields
import PipelineEngine.Proofs.Run.Account
import PipelineEngine.Proofs.Run.Exchanges

/-!
# Invocations of one step

What a run and its surroundings say to each other while the provider of a step is invoked.

* `Call.attempted_of_yields`, by induction on the attempts that are left: every attempt is one
  of the same call, and only the last one may give an output.
* `Runner.stepLog_of_yields`: all that can happen to a step, one constructor of `StepLog` for
  each way that it ends.
* `Runner.isFailure_of_invokeStep`: a step halts its run with a failure only.
-/

namespace PipelineEngine

open Dialogue

/-! ## Attempts -/

/-- The output that a reply brings. -/
def Reply.output? : Reply → Option Payload
  | .returned output => some output
  | .failed _ | .timedOut | .cancelled | .expired => none

namespace InvocationEnd

def output? : InvocationEnd → Option Payload
  | .output payload _ => some payload
  | .failed _ | .cancelled | .expired => none

/-- The step was cancelled while its provider was invoked. -/
def IsCancelled : InvocationEnd → Prop
  | .cancelled => True
  | .failed failure => failure.isCancelled = true
  | .output _ _ | .expired => False

end InvocationEnd

/-- A provider has been asked the same again until it gave an output or a failure that
is not followed by another attempt. -/
structure Call.Attempted (call : Call) (log : List Exchange) (result : InvocationEnd)
    (failures : List Reply) (last : Reply) : Prop where
  invocations_eq : invocations log = (failures ++ [last]).map fun reply => (call, reply)
  failures : ∀ reply ∈ failures, reply.output? = none
  last : last.output? = result.output?
  cancelled_iff : Cancelled log ↔ result.IsCancelled
  starts : log.countP Exchange.starts = 0

theorem ProviderFailure.not_isCancelled_of_isTransient {failure : ProviderFailure}
    (h : failure.isTransient = true) : failure.isCancelled = false := by
  cases failure with
  | cancelled => cases h
  | timeout | unreachable | failed | unsupported => rfl

namespace Call

variable {call : Call} {seconds : Nat} {deadline : Option Nat} {step : String} {attempt : Nat}

/-- An attempt that no other one follows. -/
theorem attempted_last (call : Call) (timeoutMs : Nat) (deadline : Option Nat) (reply : Reply)
    (step : String) (seconds attempt : Nat) :
    call.Attempted [⟨.invoke call timeoutMs deadline, reply⟩]
      (reply.invocationEnd step seconds attempt) [] reply where
  invocations_eq := rfl
  failures := nofun
  last := by cases reply <;> rfl
  cancelled_iff := by
    simp only [cancelled_cons_iff, not_cancelled_nil, or_false]
    cases reply with
    | timedOut => exact iff_of_false id Bool.false_ne_true
    | returned | failed | cancelled | expired => exact Iff.rfl
  starts := rfl

/-- A failure that another attempt may follow is no output, and cancels nothing. -/
theorem transient (call : Call) (timeoutMs : Nat) (deadline : Option Nat) {reply : Reply}
    {failure : ProviderFailure}
    (h : reply.invocationEnd step seconds attempt = .failed failure)
    (htransient : failure.isTransient = true) :
    reply.output? = none ∧ ¬ (⟨.invoke call timeoutMs deadline, reply⟩ : Exchange).Cancels := by
  cases reply with
  | failed =>
    cases h
    refine ⟨rfl, ?_⟩
    show ¬ failure.isCancelled = true
    rw [ProviderFailure.not_isCancelled_of_isTransient htransient]
    exact Bool.false_ne_true
  | timedOut => exact ⟨rfl, id⟩
  | returned | cancelled | expired => cases h

/-- A failed attempt before others. -/
theorem Attempted.after {log : List Exchange} {result : InvocationEnd} {failures : List Reply}
    {last reply : Reply} {failure : ProviderFailure} {timeoutMs ms : Nat}
    (h : call.Attempted log result failures last)
    (hreply : reply.invocationEnd step seconds attempt = .failed failure)
    (htransient : failure.isTransient = true) :
    call.Attempted (⟨.invoke call timeoutMs deadline, reply⟩ ::
      ⟨.pause ms deadline, .elapsed⟩ :: log) result (reply :: failures) last := by
  obtain ⟨hnone, hcancels⟩ := transient call timeoutMs deadline hreply htransient
  refine ⟨?_, List.forall_mem_cons.2 ⟨hnone, h.failures⟩, h.last, ?_, ?_⟩
  · show (call, reply) :: invocations log = _
    rw [h.invocations_eq]
    rfl
  · rw [cancelled_cons_iff, cancelled_cons_iff, ← h.cancelled_iff]
    have hpause := Exchange.isIdle_pause ms deadline (by decide : Wake.elapsed ≠ .cancelled)
    simp only [hcancels, hpause.cancels, false_or]
  · exact h.starts

/-- A failed attempt that is followed by a pause, which does not end. -/
theorem Attempted.interrupted {reply : Reply} {failure : ProviderFailure} {timeoutMs ms : Nat}
    {wake : Wake} {result : InvocationEnd} (hresult : result.output? = none)
    (hwake : (⟨.pause ms deadline, wake⟩ : Exchange).Cancels ↔ result.IsCancelled)
    (hreply : reply.invocationEnd step seconds attempt = .failed failure)
    (htransient : failure.isTransient = true) :
    call.Attempted [⟨.invoke call timeoutMs deadline, reply⟩, ⟨.pause ms deadline, wake⟩] result
      [] reply := by
  obtain ⟨hnone, hcancels⟩ := transient call timeoutMs deadline hreply htransient
  refine ⟨rfl, nofun, hnone.trans hresult.symm, ?_, rfl⟩
  simp only [cancelled_cons_iff, not_cancelled_nil, hcancels, hwake, false_or, or_false]

theorem attempted_of_yields {policy : RetryPolicy} {left : Nat} {log : List Exchange}
    {invocation : Invocation}
    (h : (call.attemptsFrom seconds policy deadline left attempt).Yields log invocation) :
    ∃ failures last, call.Attempted log invocation.result failures last := by
  induction left generalizing attempt log invocation with
  | zero =>
    rw [attemptsFrom] at h
    obtain ⟨reply, rest, rfl, hdone⟩ := yields_request_bind_iff.1 h
    obtain ⟨rfl, rfl⟩ := yields_pure_iff.1 hdone
    exact ⟨[], reply, attempted_last _ _ _ _ _ _ _⟩
  | succ left ih =>
    rw [attemptsFrom] at h
    obtain ⟨reply, rest, rfl, hnext⟩ := yields_request_bind_iff.1 h
    have hlast := attempted_last call (waitMs seconds) deadline reply call.step.name seconds attempt
    cases hend : reply.invocationEnd call.step.name seconds attempt with
    | failed failure =>
      rw [hend] at hlast hnext
      by_cases htransient : failure.isTransient = true
      · simp only [htransient, if_true] at hnext
        obtain ⟨wake, rest, rfl, hwake⟩ := yields_request_bind_iff.1 hnext
        cases wake with
        | elapsed =>
          obtain ⟨invocation, hrest, rfl⟩ := yields_bind_pure_iff.1 hwake
          obtain ⟨failures, last, hattempted⟩ := ih hrest
          exact ⟨reply :: failures, last, hattempted.after hend htransient⟩
        | cancelled =>
          obtain ⟨rfl, rfl⟩ := yields_pure_iff.1 hwake
          exact ⟨[], reply, .interrupted rfl (iff_of_true rfl trivial) hend htransient⟩
        | expired =>
          obtain ⟨rfl, rfl⟩ := yields_pure_iff.1 hwake
          have hpause := Exchange.isIdle_pause (policy.delay attempt) deadline
            (by decide : Wake.expired ≠ .cancelled)
          exact ⟨[], reply, .interrupted rfl (iff_of_false hpause.cancels id) hend htransient⟩
      · simp only [htransient] at hnext
        obtain ⟨rfl, rfl⟩ := yields_pure_iff.1 hnext
        exact ⟨[], reply, hlast⟩
    | output | cancelled | expired =>
      rw [hend] at hlast hnext
      obtain ⟨rfl, rfl⟩ := yields_pure_iff.1 hnext
      exact ⟨[], reply, hlast⟩

end Call

/-! ## Checks -/

theorem ProviderSet.not_isCancelled_of_resolve {providers : ProviderSet} {step : Step}
    {failure : ProviderFailure} (h : providers.resolve step = .error failure) :
    failure.isCancelled = false := by
  unfold resolve at h
  split at h
  · cases h
    rfl
  · dsimp only at h
    split at h
    · cases h
    · split at h
      · cases h
      · split at h
        · cases h
        · cases h
          rfl

theorem SafetyLimits.check_eq_ok_iff {limits : SafetyLimits} {usage : Usage} {seconds : Nat} :
    limits.check usage seconds = .ok () ↔
      usage.steps < limits.maxSteps ∧ seconds < limits.runTimeoutSeconds := by
  rw [check]
  split
  · rename_i h
    exact iff_of_false nofun fun hlt => Nat.not_lt.2 h hlt.1
  · rename_i hsteps
    split
    · rename_i h
      exact iff_of_false nofun fun hlt => Nat.not_lt.2 h hlt.2
    · rename_i htime
      exact iff_of_true rfl ⟨Nat.lt_of_not_le hsteps, Nat.lt_of_not_le htime⟩

theorem SafetyLimits.checkPayload_eq_ok_iff {limits : SafetyLimits} {direction : PayloadDirection}
    {size : Nat} : limits.checkPayload direction size = .ok () ↔ size ≤ limits.maxPayloadBytes := by
  rw [checkPayload]
  split
  · rename_i h
    exact iff_of_true rfl h
  · rename_i h
    exact iff_of_false nofun h

/-- The step halts its run. -/
def Halt.FailsAt (halt : Halt) (step : String) : Prop :=
  (∃ error output, halt = .failed step error output) ∨ ∃ violation, halt = .limited step violation

theorem Halt.FailsAt.kind {halt : Halt} {step : String} (h : halt.FailsAt step) :
    halt.kind ≠ .stepStarted := by
  rcases h with ⟨error, output, rfl⟩ | ⟨violation, rfl⟩
  · exact fun h : RunEventKind.runFailed = .stepStarted => nomatch h
  · exact fun h : RunEventKind.safetyLimitReached = .stepStarted => nomatch h

theorem Halt.FailsAt.outcome {halt : Halt} {step : String} (h : halt.FailsAt step) :
    ∃ error output, halt.outcome = .failed step error output := by
  rcases h with ⟨error, output, rfl⟩ | ⟨violation, rfl⟩
  · exact ⟨error, output, rfl⟩
  · exact ⟨violation.message, none, rfl⟩

namespace Runner

/-- The checks that a call passes before its provider is asked: so many steps have completed
before, a run that started at one time is told another one, the input is measured, and there
is a provider. -/
structure Admits (r : Runner) (started now : Instant) (done : Nat) (call : Call) : Prop where
  steps : done < r.limits.maxSteps
  time : elapsedMs started now / 1000 < r.limits.runTimeoutSeconds
  size : call.input.size ≤ r.limits.maxPayloadBytes
  provider : r.providers.resolve call.step = .ok (call.backend, call.reference)

/-- The provider of a step is asked with an input, after all checks: what it replies to the
first attempts and to the last. -/
structure Calls (r : Runner) (started : Instant) (done : Nat) (step : Step) (input : Payload)
    (log : List Exchange) (call : Call) (failures : List Reply) (last : Reply) : Prop where
  step : call.step = step
  input : call.input = input
  admitted : ∃ now, firstTime? log = some now ∧ r.Admits started now done call
  invocations_eq : invocations log = (failures ++ [last]).map fun reply => (call, reply)
  failures : ∀ reply ∈ failures, reply.output? = none
  starts : log.countP Exchange.starts ≤ 1

/-- All that can happen to a step of a run in which so many have completed. -/
inductive StepLog (r : Runner) (started : Instant) (done : Nat) (step : Step) (input : Payload)
    (log : List Exchange) : StepEnd → Prop
  /-- A check does not let the provider be asked. -/
  | refused {halt : Halt} (now : Instant) (htime : firstTime? log = some now)
      (hchecks : ∀ call : Call, call.step = step → call.input = input →
        ¬ r.Admits started now done call)
      (hinvocations : invocations log = []) (hcancels : ¬ Cancelled log)
      (hstarts : log.countP Exchange.starts ≤ if done < r.limits.maxSteps then 1 else 0)
      (hfails : halt.FailsAt step.name) :
    StepLog r started done step input log (.halted halt)
  | completed {call : Call} {failures : List Reply} {output : Payload} {usage : Usage}
      (hcalls : r.Calls started done step input log call failures (.returned output))
      (hsize : output.size ≤ r.limits.maxPayloadBytes) (hcancels : ¬ Cancelled log)
      (husage : usage.steps = done + 1) :
    StepLog r started done step input log (.completed output usage)
  /-- There is no output, or it is too large. -/
  | failed {call : Call} {failures : List Reply} {last : Reply} {halt : Halt}
      (hcalls : r.Calls started done step input log call failures last)
      (hlast : ∀ output, last = .returned output → r.limits.maxPayloadBytes < output.size)
      (hcancels : ¬ Cancelled log) (hfails : halt.FailsAt step.name) :
    StepLog r started done step input log (.halted halt)
  | cancelled {call : Call} {failures : List Reply} {last : Reply}
      (hcalls : r.Calls started done step input log call failures last)
      (hlast : last.output? = none) (hcancels : Cancelled log) :
    StepLog r started done step input log .cancelled

variable {r : Runner} {run : Uuid} {started : Instant} {usage : Usage} {step : Step}
variable {log : List Exchange}

theorem yields_record {entry : JournalEntry} (h : (r.record entry).Yields log ()) :
    log = [] ∨ log = [⟨.record entry, ()⟩] := by
  rw [record] at h
  split at h
  · exact .inr (yields_request_iff.1 h)
  · exact .inl (yields_pure_iff.1 h).1

theorem idle_record {entry : JournalEntry} (kind : RunEventKind) (hentry : entry.kind = kind)
    (hkind : kind ≠ .stepStarted) (h : (r.record entry).Yields log ()) : ∀ x ∈ log, x.IsIdle := by
  rcases yields_record h with rfl | rfl
  · exact List.forall_mem_nil _
  · exact List.forall_mem_singleton.2 (Exchange.isIdle_record (hentry ▸ hkind))

theorem idle_recordAll {entries : List JournalEntry}
    (hentries : ∀ entry ∈ entries, entry.kind ≠ .stepStarted)
    (h : (r.recordAll entries).Yields log ()) : ∀ x ∈ log, x.IsIdle := by
  induction entries generalizing log with
  | nil =>
    obtain ⟨rfl, -⟩ := yields_pure_iff.1 h
    exact List.forall_mem_nil _
  | cons entry entries ih =>
    obtain ⟨hentry, hentries⟩ := List.forall_mem_cons.1 hentries
    obtain ⟨_, first, second, hfirst, hsecond, rfl⟩ := yields_bind_iff.1 h
    exact List.forall_mem_append.2 ⟨idle_record _ rfl hentry hfirst, ih hentries hsecond⟩

/-- What the end of an invocation means for its step. -/
inductive Settles (r : Runner) (done : Nat) (step : Step) (result : InvocationEnd) : StepEnd → Prop
  | completed {output : Payload} {usage : Usage} (hresult : result.output? = some output)
      (hsize : output.size ≤ r.limits.maxPayloadBytes) (hcancels : ¬ result.IsCancelled)
      (husage : usage.steps = done + 1) :
    Settles r done step result (.completed output usage)
  | halted {halt : Halt}
      (hresult : ∀ output, result.output? = some output → r.limits.maxPayloadBytes < output.size)
      (hcancels : ¬ result.IsCancelled) (hfails : halt.FailsAt step.name) :
    Settles r done step result (.halted halt)
  | cancelled (hresult : result.output? = none) (hcancels : result.IsCancelled) :
    Settles r done step result .cancelled

theorem settles_of_yields {key : String} {inputSize durationMs : Nat} {result : InvocationEnd}
    {ending : StepEnd}
    (h : (r.settle run started usage step key inputSize durationMs result).Yields log ending) :
    r.Settles usage.steps step result ending ∧ ∀ x ∈ log, x.IsIdle := by
  cases result with
  | expired =>
    obtain ⟨time, rest, rfl, hnext⟩ := yields_request_bind_iff.1 h
    obtain ⟨_, hrecord, rfl⟩ := yields_bind_pure_iff.1 hnext
    refine ⟨.halted ?_ id (.inr ⟨_, rfl⟩), ?_⟩
    · intro output houtput
      cases houtput
    have hidle := idle_record .stepFailed rfl (by decide) hrecord
    exact List.forall_mem_cons.2 ⟨Exchange.isIdle_now time, hidle⟩
  | cancelled =>
    obtain ⟨rfl, rfl⟩ := yields_pure_iff.1 h
    exact ⟨.cancelled rfl trivial, List.forall_mem_nil _⟩
  | failed failure =>
    rw [settle] at h
    split at h
    · rename_i hcancelled
      obtain ⟨rfl, rfl⟩ := yields_pure_iff.1 h
      exact ⟨.cancelled rfl hcancelled, List.forall_mem_nil _⟩
    · rename_i hcancelled
      obtain ⟨_, hrecord, rfl⟩ := yields_bind_pure_iff.1 h
      refine ⟨.halted ?_ hcancelled (.inl ⟨_, _, rfl⟩), ?_⟩
      · intro output houtput
        cases houtput
      exact idle_record .stepFailed rfl (by decide) hrecord
  | output output attempts =>
    rw [settle] at h
    split at h
    · rename_i violation hviolation
      obtain ⟨_, hrecord, rfl⟩ := yields_bind_pure_iff.1 h
      refine ⟨.halted ?_ id (.inr ⟨_, rfl⟩), ?_⟩
      · intro output' houtput
        obtain rfl := Option.some.inj houtput
        apply Nat.lt_of_not_le
        intro hle
        rw [SafetyLimits.checkPayload_eq_ok_iff.2 hle] at hviolation
        cases hviolation
      · exact idle_record .stepFailed rfl (by decide) hrecord
    · rename_i hsize
      obtain ⟨_, hrecord, rfl⟩ := yields_bind_pure_iff.1 h
      refine ⟨.completed rfl (SafetyLimits.checkPayload_eq_ok_iff.1 hsize) id rfl, ?_⟩
      exact idle_record .stepCompleted rfl (by decide) hrecord

section

/-! The log of a step that is started: its start is written, the clocks are read, its provider
is asked, and what came of it is written. -/

variable {now : Instant} {entry : JournalEntry} {written clocks during after : List Exchange}
variable (hwritten : (r.record entry).Yields written ()) (hclocks : ∀ x ∈ clocks, x.IsIdle)
variable (hafter : ∀ x ∈ after, x.IsIdle)
include hwritten hclocks hafter

theorem invocations_started :
    invocations (⟨.now, now⟩ :: (written ++ (clocks ++ (during ++ after)))) =
      invocations during := by
  have hnone : invocations written = [] := by
    rcases yields_record hwritten with rfl | rfl
    · rfl
    · rfl
  show invocations (written ++ (clocks ++ (during ++ after))) = _
  simp only [invocations_append, hnone, invocations_of_idle hclocks, invocations_of_idle hafter,
    List.nil_append, List.append_nil]

theorem cancelled_started_iff :
    Cancelled (⟨.now, now⟩ :: (written ++ (clocks ++ (during ++ after)))) ↔ Cancelled during := by
  have hnow : ¬ (⟨.now, now⟩ : Exchange).Cancels := id
  have hnone : ¬ Cancelled written := by
    rcases yields_record hwritten with rfl | rfl
    · exact not_cancelled_nil
    · rw [cancelled_cons_iff, or_iff_left not_cancelled_nil]
      exact id
  simp only [cancelled_cons_iff, cancelled_append_iff, hnow, hnone, not_cancelled_of_idle hclocks,
    not_cancelled_of_idle hafter, false_or, or_false]

theorem countP_starts_started_le (hduring : during.countP Exchange.starts = 0) :
    (⟨.now, now⟩ :: (written ++ (clocks ++ (during ++ after)))).countP Exchange.starts ≤ 1 := by
  have hone : written.countP Exchange.starts ≤ 1 := by
    rcases yields_record hwritten with rfl | rfl
    · exact Nat.zero_le _
    · exact List.countP_le_length
  show (written ++ (clocks ++ (during ++ after))).countP Exchange.starts ≤ 1
  simp only [List.countP_append, countP_starts_of_idle hclocks, countP_starts_of_idle hafter,
    hduring, Nat.add_zero]
  exact hone

theorem stepLog_of_attempted {input : Payload} {call : Call} {failures : List Reply} {last : Reply}
    {result : InvocationEnd} {ending : StepEnd} {done : Nat} (hstep : call.step = step)
    (hinput : call.input = input) (hadmits : r.Admits started now done call)
    (hattempted : call.Attempted during result failures last)
    (hsettles : r.Settles done step result ending) :
    r.StepLog started done step input (⟨.now, now⟩ :: (written ++ (clocks ++ (during ++ after))))
      ending := by
  have hcancelled : Cancelled (⟨.now, now⟩ :: (written ++ (clocks ++ (during ++ after)))) ↔
      result.IsCancelled :=
    (cancelled_started_iff hwritten hclocks hafter).trans hattempted.cancelled_iff
  have hcalls : r.Calls started done step input
      (⟨.now, now⟩ :: (written ++ (clocks ++ (during ++ after)))) call failures last := by
    refine ⟨hstep, hinput, ⟨now, rfl, hadmits⟩, ?_, hattempted.failures, ?_⟩
    · rw [invocations_started hwritten hclocks hafter, hattempted.invocations_eq]
    · exact countP_starts_started_le hwritten hclocks hafter hattempted.starts
  have hlast := hattempted.last
  cases hsettles with
  | @completed output usage hresult hsize hnot husage =>
    rw [hresult] at hlast
    obtain rfl : last = .returned output := by
      cases last with
      | returned output' =>
        obtain rfl := Option.some.inj hlast
        rfl
      | failed | timedOut | cancelled | expired => cases hlast
    exact .completed hcalls hsize (mt hcancelled.1 hnot) husage
  | halted hresult hnot hfails =>
    refine .failed hcalls ?_ (mt hcancelled.1 hnot) hfails
    rintro output rfl
    exact hresult output hlast.symm
  | cancelled hresult hcancelled' =>
    exact .cancelled hcalls (hlast.trans hresult) (hcancelled.2 hcancelled')

/-- A step that is started although there is no provider for it. -/
theorem stepLog_of_unresolved {input : Payload} {failure : ProviderFailure} {ending : StepEnd}
    {done : Nat} (hsteps : done < r.limits.maxSteps)
    (hresolve : r.providers.resolve step = .error failure)
    (hsettles : r.Settles done step (.failed failure) ending) :
    r.StepLog started done step input (⟨.now, now⟩ :: (written ++ (clocks ++ ([] ++ after))))
      ending := by
  have hnot : ¬ (InvocationEnd.failed failure).IsCancelled := by
    show ¬ failure.isCancelled = true
    rw [ProviderSet.not_isCancelled_of_resolve hresolve]
    exact Bool.false_ne_true
  cases hsettles with
  | completed hresult => cases hresult
  | cancelled _ hcancels => exact absurd hcancels hnot
  | halted _ _ hfails =>
    refine .refused now rfl ?_ (invocations_started hwritten hclocks hafter) ?_ ?_ hfails
    · intro call hstep _ hadmits
      have hok := hadmits.provider
      rw [hstep, hresolve] at hok
      cases hok
    · rw [cancelled_started_iff hwritten hclocks hafter]
      exact not_cancelled_nil
    · rw [if_pos hsteps]
      exact countP_starts_started_le hwritten hclocks hafter rfl

end

theorem stepLog_of_yields {input : Payload} {ending : StepEnd}
    (h : (r.invokeStep run started usage step input).Yields log ending) :
    r.StepLog started usage.steps step input log ending := by
  rw [invokeStep] at h
  obtain ⟨now, rest, rfl, hnext⟩ := yields_request_bind_iff.1 h
  have hnow : ¬ Cancelled [⟨.now, now⟩] :=
    not_cancelled_of_idle (List.forall_mem_singleton.2 (Exchange.isIdle_now now))
  cases hcheck : r.limits.check usage (elapsedMs started now / 1000) with
  | error violation =>
    simp only [hcheck] at hnext
    obtain ⟨rfl, rfl⟩ := yields_pure_iff.1 hnext
    refine .refused now rfl ?_ rfl hnow (Nat.zero_le _) (.inr ⟨_, rfl⟩)
    intro call hstep hinput hadmits
    have hok := SafetyLimits.check_eq_ok_iff.2 ⟨hadmits.steps, hadmits.time⟩
    rw [hcheck] at hok
    cases hok
  | ok _ =>
    obtain ⟨hsteps, htime⟩ := SafetyLimits.check_eq_ok_iff.1 hcheck
    cases hsize : r.limits.checkPayload .input input.size with
    | error violation =>
      simp only [hcheck, hsize] at hnext
      obtain ⟨rfl, rfl⟩ := yields_pure_iff.1 hnext
      refine .refused now rfl ?_ rfl hnow (Nat.zero_le _) (.inr ⟨_, rfl⟩)
      rintro call hstep rfl hadmits
      rw [SafetyLimits.checkPayload_eq_ok_iff.2 hadmits.size] at hsize
      cases hsize
    | ok _ =>
      simp only [hcheck, hsize] at hnext
      obtain ⟨_, written, _, hwritten, hbegin, rfl⟩ := yields_bind_iff.1 hnext
      obtain ⟨begun, _, rfl, htimer⟩ := yields_request_bind_iff.1 hbegin
      obtain ⟨timer, _, rfl, hattempts⟩ := yields_request_bind_iff.1 htimer
      obtain ⟨invocation, during, _, hinvoke, hstop, rfl⟩ := yields_bind_iff.1 hattempts
      obtain ⟨stop, _, rfl, hrest⟩ := yields_request_bind_iff.1 hstop
      obtain ⟨_, retries, settling, hretries, hsettle, rfl⟩ := yields_bind_iff.1 hrest
      obtain ⟨hsettles, hsettling⟩ := settles_of_yields hsettle
      have hclocks : ∀ x ∈ ([⟨.now, begun⟩, ⟨.timer, timer⟩] : List Exchange), x.IsIdle :=
        List.forall_mem_cons.2
          ⟨Exchange.isIdle_now begun, List.forall_mem_singleton.2 (Exchange.isIdle_timer timer)⟩
      have hafter : ∀ x ∈ ⟨.now, stop⟩ :: (retries ++ settling), x.IsIdle := by
        refine List.forall_mem_cons.2 ⟨Exchange.isIdle_now stop, ?_⟩
        refine List.forall_mem_append.2 ⟨idle_recordAll ?_ hretries, hsettling⟩
        intro entry hentry
        obtain ⟨_, -, rfl⟩ := List.mem_map.1 hentry
        exact (by decide : RunEventKind.stepRetrying ≠ .stepStarted)
      rw [invoke] at hinvoke
      cases hresolve : r.providers.resolve step with
      | error failure =>
        rw [hresolve] at hinvoke
        obtain ⟨rfl, rfl⟩ := yields_pure_iff.1 hinvoke
        exact stepLog_of_unresolved hwritten hclocks hafter hsteps hresolve hsettles
      | ok found =>
        obtain ⟨backend, reference⟩ := found
        rw [hresolve] at hinvoke
        obtain ⟨failures, last, hattempted⟩ := Call.attempted_of_yields hinvoke
        have hadmits : r.Admits started now usage.steps ⟨step, backend, reference, input⟩ :=
          ⟨hsteps, htime, SafetyLimits.checkPayload_eq_ok_iff.1 hsize, hresolve⟩
        exact stepLog_of_attempted hwritten hclocks hafter rfl rfl hadmits hattempted hsettles

/-- A step halts its run with a failure only. -/
theorem StepLog.fails {done : Nat} {input : Payload} {halt : Halt}
    (h : r.StepLog started done step input log (.halted halt)) : halt.FailsAt step.name := by
  cases h with
  | refused _ _ _ _ _ _ hfails => exact hfails
  | failed _ _ _ hfails => exact hfails

end Runner

/-! ## Halted runs

Whatever halts a run, a limit, a provider or an input that cannot be built, the outcome is
a failure: an object whose field `success` is false, even where the provider's own output
says otherwise. -/

namespace Outcome

/-- The outcomes of halted runs. -/
def IsFailure (o : Outcome) : Prop := ∃ step error output, o = .failed step error output

theorem isFailure_failed (step error : String) (output : Option Value) :
    (failed step error output).IsFailure :=
  ⟨step, error, output, rfl⟩

variable {o : Outcome}

theorem IsFailure.success (h : o.IsFailure) : o.success = false := by
  obtain ⟨step, error, output, rfl⟩ := h
  rfl

/-- The body of a failure says that it is one, whatever the step gave along with it. -/
theorem IsFailure.field?_success (h : o.IsFailure) :
    o.value.field? "success" = some (.bool false) := by
  obtain ⟨step, error, output, rfl⟩ := h
  simp [failed, value, Payload.value, Value.field?, Fields.get?_insert]

end Outcome

namespace Runner

variable {r : Runner} {run : Uuid} {started : Instant} {usage : Usage} {step : Step} {halt : Halt}

/-- A step that halts its run leaves a failure for the outcome. -/
theorem isFailure_of_invokeStep {input : Payload}
    (h : (r.invokeStep run started usage step input).MayReturn (.halted halt)) :
    halt.outcome.IsFailure := by
  obtain ⟨log, hlog⟩ := h.exists_yields
  obtain ⟨error, output, houtcome⟩ := (stepLog_of_yields hlog).fails.outcome
  exact ⟨step.name, error, output, houtcome⟩

end Runner

end PipelineEngine
