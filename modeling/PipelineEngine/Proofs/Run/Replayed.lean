import PipelineEngine.Proofs.Journal.Replay
import PipelineEngine.Proofs.Run.Account

/-!
# What a run returns and what its journal says

A run answers twice, with what it returns and with its journal.  The fold of the journal
agrees with the result about how the run ended and how far it came; about the step that
halted it, it knows only what was written.

* `Runner.replay_agrees`: the state, the label and the number of completed steps.
* `Runner.replay_failedStep_iff`: the step that halted the run.
-/

namespace PipelineEngine

open Dialogue JournalEntry

namespace Runner

section
variable {σ : Type} (answer : (r : Request) → σ → r.Answer × σ) {r : Runner}

/-- The fold of the journal of a run agrees with what the run returned.  The steps that it
counts are those whose outputs were added to the context, and the parser if it completed. -/
theorem replay_agrees (hjournal : r.journal = true) (label : String) (parser : Option Step)
    (plan : List PlannedStep) (ctx : Context) (initial : Payload) (s : σ) {events : List RunEvent}
    (hstamped : Stamped ((r.execute label parser plan ctx initial).entries answer s) events) :
    ∃ x, Run.ofEvents? events = some x ∧
      x.summary.Agrees label ((r.execute label parser plan ctx initial).runWith answer s).1 ∧
      ∀ e, ((r.execute label parser plan ctx initial).runWith answer s).1 = .ok e →
        x.stepsCompleted + ctx.steps.length = e.context.steps.length +
          (r.parses answer (outset answer label s) parser ctx initial).toNat := by
  obtain ⟨written, hentries, haccount⟩ :=
    account_execute answer hjournal label parser plan ctx initial s
  obtain ⟨n, hcourse, hcount⟩ := haccount.course
  rw [hentries] at hstamped
  obtain ⟨x, hx, hagrees, hsteps⟩ := hcourse.agrees hstamped
  refine ⟨x, hx, hagrees, ?_⟩
  intro e he
  rw [hsteps, Nat.add_comm]
  exact hcount e he

end

/-- The events of a relayed run. -/
def relayedEvents (maxSteps : Nat) (second : String) (initial : Payload) : List RunEvent :=
  ((relayed maxSteps second initial).entries prompt ()).map fun entry => entry.stamp default default

/-- The parser and the first step complete, then the second step fails. -/
theorem replay_agrees_relayed :
    (journaling 3).journal = true ∧
      Stamped ((relayed 3 "builtin:fail" (.raw [])).entries prompt ())
        (relayedEvents 3 "builtin:fail" (.raw [])) ∧
      ∃ x, Run.ofEvents? (relayedEvents 3 "builtin:fail" (.raw [])) = some x ∧
        x.summary.Agrees "p" ((relayed 3 "builtin:fail" (.raw [])).runWith prompt ()).1 ∧
        ∀ e, ((relayed 3 "builtin:fail" (.raw [])).runWith prompt ()).1 = .ok e →
          x.stepsCompleted = e.context.steps.length + 1 := by
  have hjournal : (journaling 3).journal = true := rfl
  have hstamped := stamped_map ((relayed 3 "builtin:fail" (.raw [])).entries prompt ()) default
    default
  exact ⟨hjournal, hstamped, replay_agrees prompt hjournal _ _ _ _ _ _ hstamped⟩

section
variable {σ : Type} (answer : (r : Request) → σ → r.Answer × σ) {r : Runner}

/-- The step that halts a run is named by the fold of its journal as it is by its outcome,
exactly when the run writes a failure of the step; otherwise the fold names none. -/
theorem replay_failedStep_iff (hjournal : r.journal = true) (label : String)
    (parser : Option Step) (plan : List PlannedStep) (ctx : Context) (initial : Payload) (s : σ)
    {e : Execution}
    (hresult : ((r.execute label parser plan ctx initial).runWith answer s).1 = .ok e)
    {events : List RunEvent}
    (hstamped : Stamped ((r.execute label parser plan ctx initial).entries answer s) events) :
    ∃ x, Run.ofEvents? events = some x ∧
      (x.failedStep = e.outcome.failedStep ↔
        r.loses answer (outset answer label s) parser plan ctx initial = false) ∧
      (r.loses answer (outset answer label s) parser plan ctx initial = true →
        x.failedStep = none) ∧
      (e.outcome.success = true → x.failedStep = none) := by
  obtain ⟨written, hentries, haccount⟩ :=
    account_execute answer hjournal label parser plan ctx initial s
  rw [hresult] at haccount
  obtain ⟨n, hcourse, -⟩ := haccount.course
  rw [hentries] at hstamped
  obtain ⟨x, hx, hnamed, hsilent, hsuccess⟩ := hcourse.failedStep_read hstamped
  rw [haccount.silent_iff] at hnamed hsilent
  rw [Bool.not_eq_true] at hnamed
  exact ⟨x, hx, hnamed, hsilent, hsuccess⟩

end

/-- A step that fails is named. -/
theorem replay_failedStep_relayed :
    ∃ e, ((relayed 2 "builtin:fail" (.parsed (.bool true))).runWith prompt ()).1 = .ok e ∧
      e.outcome.failedStep = some "two" ∧ (journaling 2).journal = true ∧
      Stamped ((relayed 2 "builtin:fail" (.parsed (.bool true))).entries prompt ())
        (relayedEvents 2 "builtin:fail" (.parsed (.bool true))) ∧
      ∃ x, Run.ofEvents? (relayedEvents 2 "builtin:fail" (.parsed (.bool true))) = some x ∧
        x.failedStep = e.outcome.failedStep := by
  have hjournal : (journaling 2).journal = true := rfl
  have hstamped := stamped_map
    ((relayed 2 "builtin:fail" (.parsed (.bool true))).entries prompt ()) default default
  refine ⟨_, rfl, rfl, hjournal, hstamped, ?_⟩
  obtain ⟨x, hx, hnamed, -⟩ := replay_failedStep_iff prompt hjournal _ _ _ _ _ _ rfl hstamped
  exact ⟨x, hx, hnamed.2 rfl⟩

/-- A step that a limit does not let start is named by the outcome only. -/
theorem not_failedStep_relayed :
    (journaling 1).journal = true ∧
      Stamped ((relayed 1 "builtin:identity" (.parsed (.bool true))).entries prompt ())
        (relayedEvents 1 "builtin:identity" (.parsed (.bool true))) ∧
      ∃ e x,
        ((relayed 1 "builtin:identity" (.parsed (.bool true))).runWith prompt ()).1 = .ok e ∧
          Run.ofEvents? (relayedEvents 1 "builtin:identity" (.parsed (.bool true))) = some x ∧
          e.outcome.failedStep = some "two" ∧ x.failedStep = none :=
  ⟨rfl, stamped_map _ default default, _, _, rfl, rfl, rfl, rfl⟩

end Runner

end PipelineEngine
