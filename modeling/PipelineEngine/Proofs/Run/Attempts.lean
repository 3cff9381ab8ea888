import Mathlib.Order.Bounds.Basic
import PipelineEngine.Proofs.Run.Exchanges

/-!
# How often a provider is asked

A provider is asked the same until it gives an output, fails for good or has been asked often
enough.  What it gives to each attempt is a sequence of results, of which an attempt that takes
too long is one: the step has timed out.

* `RetryPolicy.EndsWith`: the results that no other attempt follows.
* `Call.tries_of_yields`, by induction on the attempts that are left.
* `Runner.invoke_spec` is the main statement.
-/

namespace PipelineEngine

open Dialogue

/-- What an attempt gives: an output or a failure. -/
abbrev AttemptResult := Except ProviderFailure Payload

/-- The result that a reply brings, unless the attempt is interrupted. -/
def Reply.result? (reply : Reply) (step : String) (seconds : Nat) : Option AttemptResult :=
  match reply with
  | .returned output => some (.ok output)
  | .failed failure => some (.error failure)
  | .timedOut => some (.error (.timeout step seconds))
  | .cancelled | .expired => none

/-- The end of an invocation whose last attempt had a result. -/
def InvocationEnd.ofResult (attempt : Nat) : AttemptResult → InvocationEnd
  | .ok payload => .output payload attempt
  | .error failure => .failed failure

/-- No other attempt follows: the result is an output or a failure that is not transient, or there
have been enough attempts. -/
def RetryPolicy.EndsWith (policy : RetryPolicy) (attempt : Nat) : AttemptResult → Prop
  | .ok _ => True
  | .error failure => failure.isTransient = false ∨ policy.maxAttempts ≤ attempt

/-- The pause in an exchange is over before its time. -/
def Exchange.Interrupts : Exchange → Prop
  | ⟨.pause .., wake⟩ => wake ≠ .elapsed
  | _ => False

/-- The attempts have these results, from one number on, and no pause is interrupted. -/
structure HasResults (step : String) (seconds : Nat) (results : Nat → AttemptResult) (attempt : Nat)
    (log : List Exchange) : Prop where
  results : ∀ i asked, (invocations log)[i]? = some asked →
    asked.2.result? step seconds = some (results (attempt + i))
  pauses : ∀ x ∈ log, ¬ x.Interrupts

namespace Call

/-- What attempts ask for, from one number to another: the provider each time, and a pause between
one attempt and the next. -/
def requests (call : Call) (seconds : Nat) (policy : RetryPolicy) (deadline : Option Nat)
    (first last : Nat) : List Request :=
  ((List.range' first (last - first)).flatMap fun attempt =>
    [.invoke call (waitMs seconds) deadline, .pause (policy.delay attempt) deadline]) ++
    [.invoke call (waitMs seconds) deadline]

/-- A provider has been asked from one attempt to another, which is the first one that no other
attempt follows. -/
structure Tries (call : Call) (seconds : Nat) (policy : RetryPolicy) (deadline : Option Nat)
    (results : Nat → AttemptResult) (first last : Nat) (log : List Exchange)
    (invocation : Invocation) : Prop where
  least : IsLeast {n | first ≤ n ∧ policy.EndsWith n (results n)} last
  requests : log.map Exchange.request = call.requests seconds policy deadline first last
  calls : (invocations log).map Prod.fst = List.replicate (last + 1 - first) call
  result : invocation.result = .ofResult last (results last)
  /-- Each attempt before the last one is told with its failure. -/
  retries : invocation.retries.map (fun retry => (retry.1, (.error retry.2 : AttemptResult))) =
    (List.range' first (last - first)).map fun attempt => (attempt, results attempt)

end Call

variable {call : Call} {seconds attempt last : Nat} {policy : RetryPolicy} {deadline : Option Nat}
  {results : Nat → AttemptResult} {log : List Exchange} {invocation : Invocation} {step : String}
  {reply : Reply} {timeoutMs ms : Nat}

theorem Reply.invocationEnd_eq {result : AttemptResult}
    (h : reply.result? step seconds = some result) :
    reply.invocationEnd step seconds attempt = .ofResult attempt result := by
  cases reply <;> cases h <;> rfl

/-! ## Results one after another -/

theorem HasResults.head
    (h : HasResults step seconds results attempt
      (⟨.invoke call timeoutMs deadline, reply⟩ :: log)) :
    reply.result? step seconds = some (results attempt) :=
  h.results 0 (call, reply) rfl

theorem HasResults.tail
    (h : HasResults step seconds results attempt
      (⟨.invoke call timeoutMs deadline, reply⟩ :: log)) :
    HasResults step seconds results (attempt + 1) log where
  results i asked hasked := by
    rw [Nat.add_right_comm, Nat.add_assoc]
    exact h.results (i + 1) asked hasked
  pauses x hx := h.pauses x (List.mem_cons_of_mem _ hx)

theorem HasResults.wake {wake : Wake}
    (h : HasResults step seconds results attempt (⟨.pause ms deadline, wake⟩ :: log)) :
    wake = .elapsed :=
  not_not.1 (h.pauses _ List.mem_cons_self)

theorem HasResults.after_pause {wake : Wake}
    (h : HasResults step seconds results attempt (⟨.pause ms deadline, wake⟩ :: log)) :
    HasResults step seconds results attempt log where
  results := h.results
  pauses x hx := h.pauses x (List.mem_cons_of_mem _ hx)

namespace Call

/-- An attempt that no other one follows. -/
theorem Tries.once (hend : policy.EndsWith attempt (results attempt)) :
    call.Tries seconds policy deadline results attempt attempt
      [⟨.invoke call (waitMs seconds) deadline, reply⟩]
      ⟨.ofResult attempt (results attempt), []⟩ where
  least := ⟨⟨le_rfl, hend⟩, fun _ h => h.1⟩
  requests := by simp [Call.requests]
  calls := by simp [invocations, Exchange.invocation?]
  result := rfl
  retries := by simp

/-- A transient failure before other attempts. -/
theorem Tries.cons {failure : ProviderFailure} (hfailure : results attempt = .error failure)
    (htransient : failure.isTransient = true) (hmore : attempt < policy.maxAttempts)
    (h : call.Tries seconds policy deadline results (attempt + 1) last log invocation) :
    call.Tries seconds policy deadline results attempt last
      (⟨.invoke call (waitMs seconds) deadline, reply⟩ ::
        ⟨.pause (policy.delay attempt) deadline, .elapsed⟩ :: log)
      ⟨invocation.result, (attempt, failure) :: invocation.retries⟩ := by
  obtain ⟨⟨hle, hend⟩, hleast⟩ := h.least
  have hrange : List.range' attempt (last - attempt) =
      attempt :: List.range' (attempt + 1) (last - (attempt + 1)) := by
    rw [show last - attempt = last - (attempt + 1) + 1 by omega, List.range'_succ]
  refine ⟨⟨⟨by omega, hend⟩, ?_⟩, ?_, ?_, h.result, ?_⟩
  · rintro n ⟨hn, hstops⟩
    rcases Nat.eq_or_lt_of_le hn with rfl | hlt
    · rw [hfailure] at hstops
      rcases hstops with hfinal | henough
      · rw [htransient] at hfinal
        cases hfinal
      · omega
    · exact hleast ⟨hlt, hstops⟩
  · rw [List.map_cons, List.map_cons, h.requests, Call.requests, Call.requests, hrange]
    rfl
  · show call :: (invocations log).map Prod.fst = _
    rw [h.calls, ← List.replicate_succ]
    congr 1
    omega
  · rw [List.map_cons, h.retries, hrange, List.map_cons, hfailure]

/-- The attempts that are left stop with the first one whose result ends them. -/
theorem tries_of_yields {left : Nat} (hleft : left = policy.maxAttempts - attempt)
    (h : (call.attemptsFrom seconds policy deadline left attempt).Yields log invocation)
    (hresults : HasResults call.step.name seconds results attempt log) :
    ∃ last, call.Tries seconds policy deadline results attempt last log invocation := by
  induction left generalizing attempt log invocation with
  | zero =>
    obtain ⟨reply, rest, rfl, hdone⟩ := yields_request_bind_iff.1 h
    obtain ⟨rfl, rfl⟩ := yields_pure_iff.1 hdone
    rw [Reply.invocationEnd_eq hresults.head]
    refine ⟨attempt, .once ?_⟩
    cases results attempt with
    | ok output => trivial
    | error failure => exact Or.inr (by omega)
  | succ left ih =>
    obtain ⟨reply, rest, rfl, hnext⟩ := yields_request_bind_iff.1 h
    have honce : policy.EndsWith attempt (results attempt) →
        call.Tries seconds policy deadline results attempt attempt
          [⟨.invoke call (waitMs seconds) deadline, reply⟩]
          ⟨.ofResult attempt (results attempt), []⟩ := .once
    rw [Reply.invocationEnd_eq hresults.head] at hnext
    cases hresult : results attempt with
    | ok output =>
      rw [hresult] at hnext honce
      obtain ⟨rfl, rfl⟩ := yields_pure_iff.1 hnext
      exact ⟨attempt, honce trivial⟩
    | error failure =>
      rw [hresult] at hnext honce
      by_cases htransient : failure.isTransient = true
      · simp only [InvocationEnd.ofResult, htransient, if_true] at hnext
        obtain ⟨wake, rest, rfl, hwake⟩ := yields_request_bind_iff.1 hnext
        obtain rfl := hresults.tail.wake
        obtain ⟨invocation, hrest, rfl⟩ := yields_bind_pure_iff.1 hwake
        obtain ⟨last, htries⟩ := ih (by omega) hrest hresults.tail.after_pause
        exact ⟨last, htries.cons hresult htransient (by omega)⟩
      · simp only [InvocationEnd.ofResult, htransient, if_false, Bool.false_eq_true] at hnext
        obtain ⟨rfl, rfl⟩ := yields_pure_iff.1 hnext
        exact ⟨attempt, honce (Or.inl (Bool.eq_false_iff.2 htransient))⟩

end Call

/-! ## Invocations -/

/-- What becomes of a step whose provider gives these results, in surroundings that interrupt
nothing: without a provider it fails at once, and nobody is asked.  Otherwise the provider is asked
the same up to the first attempt that no other one follows, whose result is that of the step, and
each attempt before it is told with its failure. -/
theorem Runner.invoke_spec {σ : Type} (answer : (q : Request) → σ → q.Answer × σ) (r : Runner)
    (step : Step) (input : Payload) (deadline : Option Nat) (s : σ) :
    let log := (r.invoke step input deadline).exchanges answer s
    let invocation := ((r.invoke step input deadline).runWith answer s).1
    (∀ failure, r.providers.resolve step = .error failure →
      log = [] ∧ invocation.result = .failed failure ∧ invocation.retries = []) ∧
    ∀ backend reference results, r.providers.resolve step = .ok (backend, reference) →
      HasResults step.name (step.timeout r.stepTimeout) results 1 log →
        ∃ last, Call.Tries ⟨step, backend, reference, input⟩ (step.timeout r.stepTimeout)
          (step.retry.getD r.retry) deadline results 1 last log invocation := by
  intro log invocation
  have hyields : (r.invoke step input deadline).Yields log invocation := yields_exchanges answer _ s
  constructor
  · intro failure hresolve
    rw [invoke, hresolve] at hyields
    obtain ⟨hlog, hinvocation⟩ := yields_pure_iff.1 hyields
    exact ⟨hlog, by rw [hinvocation], by rw [hinvocation]⟩
  · intro backend reference results hresolve hresults
    rw [invoke, hresolve] at hyields
    exact Call.tries_of_yields rfl hyields hresults

/-- Surroundings in which the provider that is asked first takes too long, and every other one
returns an empty payload. -/
def flaky : (q : Request) → Nat → q.Answer × Nat
  | .invoke .., 0 => (.timedOut, 1)
  | .invoke .., asked + 1 => (.returned (.raw []), asked + 2)
  | request, asked => ((still request ()).1, asked)

/-- What the attempts of the step `fetch` give there, when a step may take thirty seconds. -/
def flakyResults (attempt : Nat) : AttemptResult :=
  if attempt = 1 then .error (.timeout "fetch" 30) else .ok (.raw [])

/-- A step that is run with the standard policy there takes two attempts. -/
theorem Runner.invoke_flaky :
    let r : Runner := .standard .builtinOnly
    let step : Step := ⟨"fetch", "builtin:fetch", [], none, none⟩
    let call : Call := ⟨step, .builtin "fetch", .builtin "fetch", .raw []⟩
    let log := (r.invoke step (.raw []) none).exchanges flaky 0
    let invocation := ((r.invoke step (.raw []) none).runWith flaky 0).1
    r.providers.resolve step = .ok (.builtin "fetch", .builtin "fetch") ∧
      HasResults "fetch" 30 flakyResults 1 log ∧
      call.Tries 30 .standard none flakyResults 1 2 log invocation := by
  intro r step call log invocation
  have hresolve : r.providers.resolve step = .ok (.builtin "fetch", .builtin "fetch") := by cbv
  have hlog : log = [⟨.invoke call (waitMs 30) none, .timedOut⟩,
      ⟨.pause (RetryPolicy.standard.delay 1) none, .elapsed⟩,
      ⟨.invoke call (waitMs 30) none, .returned (.raw [])⟩] := by
    show (r.invoke step (.raw []) none).exchanges flaky 0 = _
    rw [invoke, hresolve]
    rfl
  have hresults : HasResults "fetch" 30 flakyResults 1 log := by
    rw [hlog]
    refine ⟨?_, ?_⟩
    · rintro (_ | _ | i) asked hasked <;> cases hasked <;> rfl
    · simp [Exchange.Interrupts]
  obtain ⟨last, htries⟩ :=
    (invoke_spec flaky r step (.raw []) none 0).2 _ _ flakyResults hresolve hresults
  have hlast : IsLeast {n | 1 ≤ n ∧ RetryPolicy.standard.EndsWith n (flakyResults n)} 2 := by
    refine ⟨⟨by decide, trivial⟩, ?_⟩
    rintro n ⟨hn, hends⟩
    by_contra hbefore
    obtain rfl : n = 1 := by omega
    rcases hends with hfinal | henough
    · cases hfinal
    · exact absurd henough (by decide)
  obtain rfl : last = 2 := htries.least.unique hlast
  exact ⟨hresolve, hresults, htries⟩

end PipelineEngine
