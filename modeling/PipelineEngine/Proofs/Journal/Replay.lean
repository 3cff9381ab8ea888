import Mathlib.Data.List.Forall2
import PipelineEngine.Journal.Run
import PipelineEngine.Proofs.Journal.Course

/-!
# The fold of a journal

What a journal tells about its run, apart from the times in it and the statuses of the
steps, depends on its entries only, not on the identifiers and times that they get when
they are written.

* `Run.summary_foldl`: the fold of the events of some entries and `Run.read`, the fold of
  the entries themselves, come to the same summary.
* `JournalEntry.Course.summary_read`: a course reads as its tail after so many completed
  steps.
* `JournalEntry.Course.agrees` and `JournalEntry.Course.failedStep_read`: what the fold of a
  course says is what the run returned, but for the name of a step whose failure is not
  written.
-/

namespace PipelineEngine

/-- The events are those of the entries, with some identifiers and times. -/
def Stamped : List JournalEntry → List RunEvent → Prop :=
  List.Forall₂ fun entry event => ∃ id time, event = entry.stamp id time

theorem stamped_map (entries : List JournalEntry) (id : Uuid) (time : Instant) :
    Stamped entries (entries.map fun entry => entry.stamp id time) := by
  induction entries with
  | nil => exact .nil
  | cons entry rest ih => exact .cons ⟨id, time, rfl⟩ ih

/-- What a run shows apart from its times and the statuses of its steps. -/
structure RunSummary where
  pipeline : String
  state : RunState
  closed : Bool
  stepsCompleted : Nat
  failedStep : Option String
deriving Repr, Inhabited, DecidableEq

namespace RunSummary

/-- The summary says what the run returned: whether it completed, with which text it
halted, or that it was cancelled. -/
structure Agrees (m : RunSummary) (label : String) (result : Except RunError Execution) : Prop where
  pipeline : m.pipeline = label
  closed : m.closed = true
  completed_iff : m.state = .completed ↔ ∃ e, result = .ok e ∧ e.outcome.success = true
  halted : ∀ e, result = .ok e → e.outcome.success = false →
    ∃ error, e.outcome.error = some error ∧ (m.state = .failed error ∨ m.state = .limited error)
  cancelled_iff : m.state = .cancelled ↔ result = .error (.cancelled label)

variable {m : RunSummary} {label : String}

theorem agrees_succeeded (hpipeline : m.pipeline = label) (hclosed : m.closed = true)
    (hstate : m.state = .completed) (run : Uuid) (body : Payload) (ctx : Context) :
    m.Agrees label (.ok ⟨run, .succeeded body, ctx⟩) where
  pipeline := hpipeline
  closed := hclosed
  completed_iff := iff_of_true hstate ⟨_, rfl, rfl⟩
  halted := by
    rintro e ⟨⟩ hfail
    cases hfail
  cancelled_iff := by simp [hstate]

theorem agrees_failed {error : String} (hpipeline : m.pipeline = label) (hclosed : m.closed = true)
    (hstate : m.state = .failed error ∨ m.state = .limited error) (run : Uuid) (step : String)
    (output : Option Value) (ctx : Context) :
    m.Agrees label (.ok ⟨run, .failed step error output, ctx⟩) where
  pipeline := hpipeline
  closed := hclosed
  completed_iff := by
    refine iff_of_false (by rcases hstate with h | h <;> simp [h]) ?_
    rintro ⟨e, ⟨⟩, hsuccess⟩
    cases hsuccess
  halted := by
    rintro e ⟨⟩ -
    exact ⟨error, rfl, hstate⟩
  cancelled_iff := by rcases hstate with h | h <;> simp [h]

theorem agrees_cancelled (hpipeline : m.pipeline = label) (hclosed : m.closed = true)
    (hstate : m.state = .cancelled) : m.Agrees label (.error (.cancelled label)) where
  pipeline := hpipeline
  closed := hclosed
  completed_iff := by
    refine iff_of_false (by simp [hstate]) ?_
    rintro ⟨e, ⟨⟩, -⟩
  halted := by
    rintro e ⟨⟩
  cancelled_iff := iff_of_true hstate rfl

end RunSummary

namespace Run

def summary (x : Run) : RunSummary :=
  ⟨x.pipeline, x.state, x.completedAt.isSome, x.stepsCompleted, x.failedStep⟩

variable {x y : Run}

theorem summary_apply_congr (h : x.summary = y.summary) (entry : JournalEntry) (id id' : Uuid)
    (time time' : Instant) :
    (x.apply (entry.stamp id time)).summary = (y.apply (entry.stamp id' time')).summary := by
  obtain ⟨run, step, kind, key, text, attempt, durationMs, error⟩ := entry
  simp only [summary, RunSummary.mk.injEq] at h
  obtain ⟨hpipeline, hstate, hclosed, hsteps, hfailed⟩ := h
  cases kind <;> cases step <;>
    simp [summary, apply, applyStep, JournalEntry.stamp, RunEventKind.isTerminal, hpipeline, hstate,
      hclosed, hsteps, hfailed]

/-- The run after some entries, whatever their identifiers and times. -/
def read (x : Run) (entries : List JournalEntry) : Run :=
  entries.foldl (fun x entry => x.apply (entry.stamp default default)) x

theorem read_append (x : Run) (front rest : List JournalEntry) :
    x.read (front ++ rest) = (x.read front).read rest :=
  List.foldl_append

theorem summary_read_congr (h : x.summary = y.summary) (entries : List JournalEntry) :
    (x.read entries).summary = (y.read entries).summary := by
  induction entries generalizing x y with
  | nil => exact h
  | cons entry rest ih => exact ih (summary_apply_congr h entry _ _ _ _)

/-- The summary of a journal depends on its entries only. -/
theorem summary_foldl {entries : List JournalEntry} {events : List RunEvent}
    (hstamped : Stamped entries events) (h : x.summary = y.summary) :
    (events.foldl apply x).summary = (y.read entries).summary := by
  induction hstamped generalizing x y with
  | nil => exact h
  | @cons entry event rest events hevent hrest ih =>
    obtain ⟨id, time, rfl⟩ := hevent
    exact ih (summary_apply_congr h entry _ _ _ _)

end Run

namespace JournalEntry

variable {run : Uuid} {label : String} {written : List JournalEntry}
variable {result : Except RunError Execution}

/-- The start of a step and its attempts change its status only. -/
theorem summary_read_opening (run : Uuid) (step key : String)
    (retries : List (Nat × ProviderFailure)) (x : Run) :
    (x.read (opening run step key retries)).summary = x.summary := by
  have hretries : ∀ x : Run, (x.read (retries.map fun retry =>
      .stepRetrying run step key retry.1 retry.2.message)).summary = x.summary := by
    induction retries with
    | nil => exact fun x => rfl
    | cons retry rest ih => exact fun x => ih _
  exact hretries _

theorem summary_read_opening_append (run : Uuid) (step key : String)
    (retries : List (Nat × ProviderFailure)) (rest : List JournalEntry) (x : Run) :
    (x.read (opening run step key retries ++ rest)).summary = (x.read rest).summary := by
  rw [Run.read_append]
  exact Run.summary_read_congr (summary_read_opening run step key retries x) rest

/-- A block counts one more completed step. -/
theorem IsBlock.summary_read {block : List JournalEntry} (h : IsBlock run block) (x : Run) :
    (x.read block).summary =
      ({ x with stepsCompleted := x.stepsCompleted + 1 } : Run).summary := by
  obtain ⟨step, key, retries, durationMs, attempts⟩ := h
  rw [summary_read_opening_append]
  rfl

variable {tail : List JournalEntry}

/-- A tail says what the run returned, and completes no step. -/
theorem IsTail.agrees (h : IsTail run label tail result) (x : Run)
    (hpipeline : x.pipeline = label) :
    (x.read tail).summary.Agrees label result ∧
      (x.read tail).summary.stepsCompleted = x.stepsCompleted := by
  cases h with
  | completed body ctx => exact ⟨RunSummary.agrees_succeeded hpipeline rfl rfl _ _ _, rfl⟩
  | unread | unbuilt =>
    exact ⟨RunSummary.agrees_failed hpipeline rfl (Or.inl rfl) _ _ _ _, rfl⟩
  | refused => exact ⟨RunSummary.agrees_failed hpipeline rfl (Or.inr rfl) _ _ _ _, rfl⟩
  | failed =>
    rw [List.append_assoc, summary_read_opening_append]
    exact ⟨RunSummary.agrees_failed hpipeline rfl (Or.inl rfl) _ _ _ _, rfl⟩
  | limited =>
    rw [List.append_assoc, summary_read_opening_append]
    exact ⟨RunSummary.agrees_failed hpipeline rfl (Or.inr rfl) _ _ _ _, rfl⟩
  | cancelled => exact ⟨RunSummary.agrees_cancelled hpipeline rfl rfl, rfl⟩
  | interrupted =>
    rw [summary_read_opening_append]
    exact ⟨RunSummary.agrees_cancelled hpipeline rfl rfl, rfl⟩

/-- A tail names the step that halted the run, unless it is silent about it. -/
theorem IsTail.failedStep_read {e : Execution} (h : IsTail run label tail (.ok e)) (x : Run)
    (hx : x.failedStep = none) :
    (Silent tail (.ok e) ∧ (x.read tail).summary.failedStep = none) ∨
      (¬ Silent tail (.ok e) ∧ (x.read tail).summary.failedStep = e.outcome.failedStep) := by
  cases h with
  | completed => exact Or.inr ⟨not_silent_succeeded _ _, hx⟩
  | unread | refused => exact Or.inl ⟨silent_runHalted (by decide) _ _ _ _ _, hx⟩
  | unbuilt => exact Or.inr ⟨not_silent_append_stepFailed [] _ _ _ _, rfl⟩
  | failed | limited =>
    refine Or.inr ⟨not_silent_append_stepFailed _ _ _ _ _, ?_⟩
    rw [List.append_assoc, summary_read_opening_append]
    rfl

/-- A run names a step in its outcome exactly when it failed. -/
theorem IsTail.failedStep_eq_none_iff {e : Execution} (h : IsTail run label tail (.ok e)) :
    e.outcome.failedStep = none ↔ e.outcome.success = true := by
  cases h with
  | completed => exact iff_of_true rfl rfl
  | unread | refused | unbuilt | failed | limited => simp [Outcome.failed]

/-! ## Whole courses -/

/-- A course reads as its tail does after so many completed steps. -/
theorem Course.summary_read {n : Nat} (h : Course run label n written result) (x : Run) :
    ∃ tail, IsTail run label tail result ∧ (Silent written result ↔ Silent tail result) ∧
      (x.read written).summary =
        ({ x with stepsCompleted := x.stepsCompleted + n }.read tail).summary := by
  induction h generalizing x with
  | @tail tail result h => exact ⟨tail, h, Iff.rfl, rfl⟩
  | @block block written result n hblock h ih =>
    obtain ⟨tail, htail, hsilent, hread⟩ :=
      ih { x with stepsCompleted := x.stepsCompleted + 1 }
    refine ⟨tail, htail, (silent_block_append_iff hblock).trans hsilent, ?_⟩
    rw [Run.read_append, Run.summary_read_congr (hblock.summary_read x), hread,
      Nat.add_right_comm]
    rfl

variable {events : List RunEvent}

/-- The fold of a journal is that of a tail, from a run under the label whose completed
steps have been counted. -/
theorem Course.exists_run {n : Nat} (h : Course run label n written result)
    (hstamped : Stamped (.runStarted run label :: written) events) :
    ∃ x tail, Run.ofEvents? events = some x ∧ IsTail run label tail result ∧
      (Silent written result ↔ Silent tail result) ∧
      ∃ before : Run, before.pipeline = label ∧ before.stepsCompleted = n ∧
        before.failedStep = none ∧ x.summary = (before.read tail).summary := by
  cases hstamped with
  | @cons _ first _ rest hfirst hrest =>
    -- The fold starts from the first event and then reads it like all others.
    have hfold := Run.summary_foldl (.cons hfirst hrest) (rfl : (Run.start first).summary = _)
    let started := (Run.start first).apply ((runStarted run label).stamp default default)
    obtain ⟨tail, htail, hsilent, hread⟩ := h.summary_read started
    exact ⟨_, tail, rfl, htail, hsilent, _, rfl, Nat.zero_add n, rfl, hfold.trans hread⟩

/-- The fold of a journal agrees with what the run returned and counts the steps that
completed. -/
theorem Course.agrees {n : Nat} (h : Course run label n written result)
    (hstamped : Stamped (.runStarted run label :: written) events) :
    ∃ x, Run.ofEvents? events = some x ∧ x.summary.Agrees label result ∧
      x.stepsCompleted = n := by
  obtain ⟨x, tail, hx, htail, -, before, hpipeline, hsteps, -, hread⟩ := h.exists_run hstamped
  obtain ⟨hagrees, hcount⟩ := htail.agrees before hpipeline
  rw [← hread] at hagrees hcount
  exact ⟨x, hx, hagrees, hcount.trans hsteps⟩

/-- The fold of a journal names the step that the outcome names, unless no failure of a step
was written; then it names none. -/
theorem Course.failedStep_read {n : Nat} {e : Execution} (h : Course run label n written (.ok e))
    (hstamped : Stamped (.runStarted run label :: written) events) :
    ∃ x, Run.ofEvents? events = some x ∧
      (x.failedStep = e.outcome.failedStep ↔ ¬ Silent written (.ok e)) ∧
      (Silent written (.ok e) → x.failedStep = none) ∧
      (e.outcome.success = true → x.failedStep = none) := by
  obtain ⟨x, tail, hx, htail, hsilent, before, -, -, hfailed, hread⟩ := h.exists_run hstamped
  have hsummary : x.failedStep = (before.read tail).summary.failedStep :=
    congrArg RunSummary.failedStep hread
  rw [hsilent]
  refine ⟨x, hx, ?_⟩
  rcases htail.failedStep_read before hfailed with ⟨hsilent, hnone⟩ | ⟨hspoken, hnamed⟩
  · have hnone : x.failedStep = none := hsummary.trans hnone
    have hnamed : e.outcome.failedStep ≠ none := by
      obtain ⟨⟨_, ⟨⟩, hfail⟩, -⟩ := hsilent
      rw [ne_eq, htail.failedStep_eq_none_iff, hfail]
      exact Bool.false_ne_true
    refine ⟨iff_of_false ?_ (not_not_intro hsilent), fun _ => hnone, fun _ => hnone⟩
    intro hsame
    exact hnamed (hsame.symm.trans hnone)
  · have hnamed : x.failedStep = e.outcome.failedStep := hsummary.trans hnamed
    refine ⟨iff_of_true hnamed hspoken, fun hsilent => absurd hsilent hspoken, ?_⟩
    intro hsuccess
    exact hnamed.trans (htail.failedStep_eq_none_iff.2 hsuccess)

end JournalEntry

end PipelineEngine
