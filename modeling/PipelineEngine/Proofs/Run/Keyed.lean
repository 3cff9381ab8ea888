import PipelineEngine.Proofs.Journal.Keys
import PipelineEngine.Proofs.Run.Requests

/-!
# What runs ask for, and the keys of what they write

A run asks for the time, for replies and for pauses, and writes into the journal; it delivers no
events (`Runner.quiet_execute`).  Each entry that it writes has a key of its kind, so an entry
with the key of a step is the start or the completion of this step.

* `Runner.keeps_execute` follows a run through its parts, one lemma for each.
* `JournalEntry.IsWritten.isKeyed`: the keys of the entries that runs write.
* `EventKey.ofStep_identifies`: what the key of a step says.
-/

namespace PipelineEngine

/-! ## Entries -/

namespace JournalEntry

/-- The entry starts or completes a step. -/
def Delimits (e : JournalEntry) : Prop := e.kind = .stepStarted ∨ e.kind = .stepCompleted

/-- An entry that starts or completes a step has the key of the step, and every other one a key
of another kind. -/
inductive IsKeyed (e : JournalEntry) : Prop
  | step (step : String) (input : List UInt8) (hdelimits : e.Delimits) (hstep : e.step = some step)
      (hkey : e.key = EventKey.ofStep e.run step input)
  | other (hdelimits : ¬ e.Delimits)
      (hkey : (∀ n ∈ e.attempt, n < Word.bound 32) → EventKey.IsOther e.key)

variable (run : Uuid) (label step error : String)

theorem not_delimits_of_isTerminal {e : JournalEntry} (h : e.kind.isTerminal = true) :
    ¬ e.Delimits := by
  rintro (hkind | hkind) <;> rw [hkind] at h <;> cases h

theorem isKeyed_runStarted : (runStarted run label).IsKeyed :=
  .other (by simp [Delimits, runStarted]) fun _ => .start run

theorem isKeyed_runCompleted : (runCompleted run label).IsKeyed :=
  .other (not_delimits_of_isTerminal rfl) fun _ => .finish run

theorem isKeyed_runHalted {kind : RunEventKind} (h : kind.isTerminal = true) :
    (runHalted run label kind error).IsKeyed :=
  .other (not_delimits_of_isTerminal h) fun _ => .finish run

theorem isKeyed_runCancelled : (runCancelled run label step).IsKeyed :=
  .other (not_delimits_of_isTerminal rfl) fun _ => .cancel run

theorem isKeyed_stepStarted (input : List UInt8) :
    (stepStarted run step (EventKey.ofStep run step input)).IsKeyed :=
  .step step input (.inl rfl) rfl rfl

theorem isKeyed_stepRetrying (input : List UInt8) (attempt : Nat) :
    (stepRetrying run step (EventKey.ofStep run step input) attempt error).IsKeyed :=
  .other (by simp [Delimits, stepRetrying]) fun h => .retry run step input (h attempt rfl)

theorem isKeyed_stepFailed (durationMs : Nat) : (stepFailed run step error durationMs).IsKeyed :=
  .other (by simp [Delimits, stepFailed]) fun _ => .failure run step

theorem isKeyed_stepCompleted (input : List UInt8) (durationMs attempts : Nat) :
    (stepCompleted run step (EventKey.ofStep run step input) durationMs attempts).IsKeyed :=
  .step step input (.inr rfl) rfl rfl

end JournalEntry

/-! ## Requests -/

/-- What a run may ask for. -/
inductive Request.IsOfRun : Request → Prop
  | uuid : IsOfRun .uuid
  | now : IsOfRun .now
  | timer : IsOfRun .timer
  | isCancelled : IsOfRun .isCancelled
  | invoke (call : Call) (timeoutMs : Nat) (deadline : Option Nat) :
      IsOfRun (.invoke call timeoutMs deadline)
  | pause (ms : Nat) (deadline : Option Nat) : IsOfRun (.pause ms deadline)
  | record {entry : JournalEntry} (h : entry.IsKeyed) : IsOfRun (.record entry)

/-- If a step halts its run, then with a kind that closes a run. -/
def StepEnd.Closes : StepEnd → Prop
  | .halted halt => halt.kind.isTerminal = true
  | _ => True

def RunEnd.Closes : RunEnd → Prop
  | .halted halt _ => halt.kind.isTerminal = true
  | _ => True

open Dialogue

theorem Call.keeps_attemptsFrom (call : Call) (seconds : Nat) (policy : RetryPolicy)
    (deadline : Option Nat) (left attempt : Nat) :
    (call.attemptsFrom seconds policy deadline left attempt).Keeps Request.IsOfRun
      fun _ => True := by
  induction left generalizing attempt with
  | zero => exact (keeps_request (.invoke ..)).bind fun reply _ => keeps_pure trivial
  | succ left ih =>
    rw [Call.attemptsFrom]
    refine (keeps_request (.invoke ..)).bind fun reply _ => ?_
    split
    · split
      · refine (keeps_request (.pause ..)).bind fun wake _ => ?_
        cases wake with
        | elapsed => exact (ih (attempt + 1)).bind fun rest _ => keeps_pure trivial
        | cancelled => exact keeps_pure trivial
        | expired => exact keeps_pure trivial
      · exact keeps_pure trivial
    · exact keeps_pure trivial

namespace Runner

variable (r : Runner)

theorem keeps_record {entry : JournalEntry} (h : entry.IsKeyed) :
    (r.record entry).Keeps Request.IsOfRun fun _ => True := by
  unfold record
  split
  · exact keeps_request (.record h)
  · exact keeps_pure trivial

theorem keeps_recordAll {entries : List JournalEntry} (h : ∀ entry ∈ entries, entry.IsKeyed) :
    (r.recordAll entries).Keeps Request.IsOfRun fun _ => True := by
  induction entries with
  | nil => exact keeps_pure trivial
  | cons entry rest ih =>
    obtain ⟨hentry, hrest⟩ := List.forall_mem_cons.1 h
    exact (r.keeps_record hentry).bind fun _ _ => ih hrest

theorem keeps_invoke (step : Step) (input : Payload) (deadline : Option Nat) :
    (r.invoke step input deadline).Keeps Request.IsOfRun fun _ => True := by
  unfold invoke
  split
  · exact keeps_pure trivial
  · exact Call.keeps_attemptsFrom _ _ _ _ _ _

variable (run : Uuid) (started : Instant)

/-- What is written about a step once its provider has come to an end. -/
theorem keeps_settle (usage : Usage) (step : Step) (input : List UInt8)
    (inputSize durationMs : Nat) (result : InvocationEnd) :
    (r.settle run started usage step (EventKey.ofStep run step.name input) inputSize durationMs
      result).Keeps Request.IsOfRun StepEnd.Closes := by
  have hfailed : ∀ error, (r.record (.stepFailed run step.name error durationMs)).Keeps
      Request.IsOfRun fun _ => True :=
    fun error => r.keeps_record (JournalEntry.isKeyed_stepFailed run step.name error durationMs)
  cases result with
  | expired =>
    exact (keeps_request .now).bind fun _ _ => (hfailed _).bind fun _ _ => keeps_pure rfl
  | cancelled => exact keeps_pure trivial
  | failed failure =>
    rw [settle]
    split
    · exact keeps_pure trivial
    · exact (hfailed _).bind fun _ _ => keeps_pure rfl
  | output output attempts =>
    rw [settle]
    split
    · exact (hfailed _).bind fun _ _ => keeps_pure rfl
    · exact (r.keeps_record (JournalEntry.isKeyed_stepCompleted run step.name input _ _)).bind
        fun _ _ => keeps_pure trivial

theorem keeps_invokeStep (usage : Usage) (step : Step) (input : Payload) :
    (r.invokeStep run started usage step input).Keeps Request.IsOfRun StepEnd.Closes := by
  rw [invokeStep]
  refine (keeps_request .now).bind fun now _ => ?_
  dsimp only
  split
  · exact keeps_pure rfl
  · split
    · exact keeps_pure rfl
    · refine (r.keeps_record (JournalEntry.isKeyed_stepStarted run step.name _)).bind fun _ _ => ?_
      refine (keeps_request .now).bind fun _ _ => (keeps_request .timer).bind fun _ _ => ?_
      refine (r.keeps_invoke step input _).bind fun invocation _ => ?_
      -- The retries are written once the provider is done, with keys made from that of the step.
      refine (keeps_request .now).bind fun _ _ => (r.keeps_recordAll ?_).bind fun _ _ =>
        r.keeps_settle run started usage step _ _ _ _
      simp only [List.forall_mem_map]
      exact fun retry _ => JournalEntry.isKeyed_stepRetrying run step.name _ _ retry.1

theorem keeps_runPlan (initial : Payload) (plan : List PlannedStep) (ctx : Context)
    (usage : Usage) :
    (r.runPlan run started initial plan ctx usage).Keeps Request.IsOfRun RunEnd.Closes := by
  induction plan generalizing ctx usage with
  | nil => exact keeps_pure trivial
  | cons entry rest ih =>
    rw [runPlan]
    refine (keeps_request .isCancelled).bind fun cancelled _ => ?_
    split
    · exact keeps_pure trivial
    · split
      · exact (r.keeps_record (JournalEntry.isKeyed_stepFailed run _ _ 0)).bind fun _ _ =>
          keeps_pure rfl
      · refine (r.keeps_invokeStep run started usage entry.step _).bind fun ending hends => ?_
        cases ending with
        | completed output usage => exact ih _ usage
        | halted halt => exact keeps_pure hends
        | cancelled => exact keeps_pure trivial

theorem keeps_runAll (parser : Option Step) (plan : List PlannedStep) (ctx : Context)
    (initial : Payload) :
    (r.runAll run started parser plan ctx initial).Keeps Request.IsOfRun RunEnd.Closes := by
  rw [runAll]
  split
  · exact r.keeps_runPlan run started initial plan ctx .none
  · split
    · exact keeps_pure rfl
    · refine (r.keeps_invokeStep run started .none _ _).bind fun ending hends => ?_
      cases ending with
      | completed output usage => exact r.keeps_runPlan run started output plan ctx usage
      | halted halt => exact keeps_pure hends
      | cancelled => exact keeps_pure trivial

theorem keeps_finish (label : String) {ending : RunEnd} (h : ending.Closes) :
    (r.finish run label ending).Keeps Request.IsOfRun fun _ => True := by
  cases ending with
  | completed body ctx =>
    exact (r.keeps_record (JournalEntry.isKeyed_runCompleted run label)).bind fun _ _ =>
      keeps_pure trivial
  | halted halt ctx =>
    exact (r.keeps_record (JournalEntry.isKeyed_runHalted run label _ h)).bind fun _ _ =>
      keeps_pure trivial
  | cancelled step =>
    exact (r.keeps_record (JournalEntry.isKeyed_runCancelled run label step)).bind fun _ _ =>
      keeps_pure trivial

theorem keeps_execute (label : String) (parser : Option Step) (plan : List PlannedStep)
    (ctx : Context) (initial : Payload) :
    (r.execute label parser plan ctx initial).Keeps Request.IsOfRun fun _ => True :=
  (keeps_request .uuid).bind fun run _ => (keeps_request .now).bind fun started _ =>
    (r.keeps_record (JournalEntry.isKeyed_runStarted run label)).bind fun _ _ =>
      (r.keeps_runAll run started parser plan ctx initial).bind fun _ hends =>
        r.keeps_finish run label hends

/-- A run delivers no events. -/
theorem quiet_execute (label : String) (parser : Option Step) (plan : List PlannedStep)
    (ctx : Context) (initial : Payload) : (r.execute label parser plan ctx initial).Quiet := by
  intro request hrequest
  cases (r.keeps_execute label parser plan ctx initial).asks request hrequest <;> rfl

end Runner

/-! ## What the key of a step says -/

/-- Some run may write the entry into its journal. -/
def JournalEntry.IsWritten (e : JournalEntry) : Prop :=
  ∃ (r : Runner) (label : String) (parser : Option Step) (plan : List PlannedStep)
    (ctx : Context) (initial : Payload),
    (r.execute label parser plan ctx initial).MayAsk (.record e)

/-- The entries of runs have keys of their kinds. -/
theorem JournalEntry.IsWritten.isKeyed {e : JournalEntry} (h : e.IsWritten) : e.IsKeyed := by
  obtain ⟨r, label, parser, plan, ctx, initial, hasks⟩ := h
  cases (r.keeps_execute label parser plan ctx initial).asks _ hasks with
  | record h => exact h

/-- The key of a step tells its run, its name and the sixteen digits of its input, and no key of
another kind is equal to it.  So an entry of a run that has the key is the start or the completion
of the step, and all starts and completions have such keys. -/
theorem EventKey.ofStep_identifies (run : Uuid) (step : String) (input : List UInt8) :
    ((inputHash input).toList.length = 16 ∧
        ∀ c ∈ (inputHash input).toList, ∃ d < 16, c = Numeral.digitChar d) ∧
      (∀ run' step' input', ofStep run step input = ofStep run' step' input' ↔
        run = run' ∧ step = step' ∧ inputHash input = inputHash input') ∧
      (∀ key, IsOther key → ofStep run step input ≠ key) ∧
      ∀ e : JournalEntry, e.IsWritten → (∀ n ∈ e.attempt, n < Word.bound 32) →
        (e.key = ofStep run step input → e.Delimits ∧ e.run = run ∧ e.step = some step) ∧
        (e.Delimits → ∃ name bytes, e.step = some name ∧ e.key = ofStep e.run name bytes) := by
  refine ⟨⟨length_inputHash input, fun _ => exists_of_mem_inputHash⟩,
    fun _ _ _ => ofStep_eq_ofStep_iff, fun _ => ofStep_ne_of_isOther, ?_⟩
  intro e hwritten hattempt
  cases hwritten.isKeyed with
  | step name bytes hdelimits hstep hkey =>
    refine ⟨fun h => ?_, fun _ => ⟨name, bytes, hstep, hkey⟩⟩
    obtain ⟨hrun, hname, -⟩ := ofStep_eq_ofStep_iff.1 (hkey.symm.trans h)
    exact ⟨hdelimits, hrun, hname ▸ hstep⟩
  | other hdelimits hkey =>
    exact ⟨fun h => absurd h.symm (ofStep_ne_of_isOther (hkey hattempt)),
      fun h => absurd h hdelimits⟩

/-- A journaled run of a step whose name ends like the key of a failure. -/
def packing : Dialogue (Except RunError Execution) :=
  Runner.execute { Runner.standard .builtinOnly with journal := true } "p" none
    (Plan.ofSteps [⟨"pack:failed", "builtin:identity", [], none, none⟩]) (.start .null []) .empty

/-- The entry that starts the step. -/
def packingStarted : JournalEntry :=
  .stepStarted default "pack:failed" (EventKey.ofStep default "pack:failed" Payload.empty.bytes)

theorem isWritten_packingStarted : packingStarted.IsWritten := by
  have hrequest : (packing.requests prompt ())[5]? = some (.record packingStarted) := rfl
  exact ⟨_, _, _, _, _, _, mayAsk_of_mem_requests (List.mem_of_getElem? hrequest)⟩

/-- Keys that differ by what follows a colon. -/
theorem EventKey.ofStep_identifies_colons :
    (IsOther (ofFailure default "pack") ∧
        ofStep default "pack:failed" [] ≠ ofFailure default "pack") ∧
      (1 < Word.bound 32 ∧ ofStep default "pack" [] ≠ ofRetry (ofStep default "pack" []) 1) ∧
      ofStep default "pack" [] ≠ ofStep default "pack:" [] ∧
      packingStarted.IsWritten ∧ (∀ n ∈ packingStarted.attempt, n < Word.bound 32) ∧
      packingStarted.key = ofStep default "pack:failed" Payload.empty.bytes ∧
      packingStarted.Delimits := by
  have hfailure : IsOther (ofFailure default "pack") := .failure default "pack"
  have hbound : 1 < Word.bound 32 := by decide
  have hattempt : ∀ n ∈ packingStarted.attempt, n < Word.bound 32 := nofun
  obtain ⟨-, -, hother, hentries⟩ :=
    ofStep_identifies default "pack:failed" Payload.empty.bytes
  obtain ⟨-, hsame, hretry, -⟩ := ofStep_identifies default "pack" []
  obtain ⟨-, -, hfailed, -⟩ := ofStep_identifies default "pack:failed" []
  refine ⟨⟨hfailure, hfailed _ hfailure⟩, ⟨hbound, hretry _ (.retry default "pack" [] hbound)⟩, ?_,
    isWritten_packingStarted, hattempt, rfl, ?_⟩
  · intro h
    exact absurd ((hsame _ _ _).1 h).2.1 (by decide)
  · exact ((hentries _ isWritten_packingStarted hattempt).1 rfl).1

end PipelineEngine
