import PipelineEngine.Journal.Entry
import PipelineEngine.Run.Runner

/-!
# The course of a journal

What a run writes into its journal, from its first entry to its last.  Every step that
completes leaves a block, its start and its failed attempts and its completion; what ends
the run leaves a tail, whose last entry is the only one that closes the run.

* `JournalEntry.IsBlock` and `JournalEntry.IsTail`: the parts of a journal, the tail along
  with what the run returns.
* `Course.exists_last`: one entry closes the run, and it is the last one.
* `Silent`: the run halted, but no step has its failure written.
-/

namespace PipelineEngine

/-! ## The parts of a journal -/

namespace JournalEntry

/-- The start of a step and its attempts that were followed by another one. -/
def opening (run : Uuid) (step key : String) (retries : List (Nat × ProviderFailure)) :
    List JournalEntry :=
  .stepStarted run step key ::
    retries.map fun retry => .stepRetrying run step key retry.1 retry.2.message

/-- What a step that completes writes, all under its name and with one key. -/
inductive IsBlock (run : Uuid) : List JournalEntry → Prop
  | mk (step key : String) (retries : List (Nat × ProviderFailure)) (durationMs attempts : Nat) :
    IsBlock run (opening run step key retries ++ [.stepCompleted run step key durationMs attempts])

/-- What a run writes after its completed steps, and what it returns.  A parser whose input
cannot be built and a step that a limit does not let start leave no entry of their own. -/
inductive IsTail (run : Uuid) (label : String) :
    List JournalEntry → Except RunError Execution → Prop
  | completed (body : Payload) (ctx : Context) :
    IsTail run label [.runCompleted run label] (.ok ⟨run, .succeeded body, ctx⟩)
  | unread (parser error : String) (ctx : Context) :
    IsTail run label [.runHalted run label .runFailed error]
      (.ok ⟨run, .failed parser error none, ctx⟩)
  | unbuilt (step error : String) (ctx : Context) :
    IsTail run label [.stepFailed run step error 0, .runHalted run label .runFailed error]
      (.ok ⟨run, .failed step error none, ctx⟩)
  | refused (step : String) (violation : SafetyViolation) (ctx : Context) :
    IsTail run label [.runHalted run label .safetyLimitReached violation.message]
      (.ok ⟨run, .failed step violation.message none, ctx⟩)
  | failed (step key : String) (retries : List (Nat × ProviderFailure)) (error : String)
      (durationMs : Nat) (output : Option Value) (ctx : Context) :
    IsTail run label
      (opening run step key retries ++ [.stepFailed run step error durationMs] ++
        [.runHalted run label .runFailed error])
      (.ok ⟨run, .failed step error output, ctx⟩)
  | limited (step key : String) (retries : List (Nat × ProviderFailure))
      (violation : SafetyViolation) (durationMs : Nat) (ctx : Context) :
    IsTail run label
      (opening run step key retries ++ [.stepFailed run step violation.message durationMs] ++
        [.runHalted run label .safetyLimitReached violation.message])
      (.ok ⟨run, .failed step violation.message none, ctx⟩)
  | cancelled (step : String) :
    IsTail run label [.runCancelled run label step] (.error (.cancelled label))
  | interrupted (step key : String) (retries : List (Nat × ProviderFailure)) :
    IsTail run label (opening run step key retries ++ [.runCancelled run label step])
      (.error (.cancelled label))

/-- What a run writes and returns when so many more of its steps complete. -/
inductive Course (run : Uuid) (label : String) :
    Nat → List JournalEntry → Except RunError Execution → Prop
  | tail {written : List JournalEntry} {result : Except RunError Execution}
      (h : IsTail run label written result) :
    Course run label 0 written result
  | block {block written : List JournalEntry} {result : Except RunError Execution} {n : Nat}
      (hblock : IsBlock run block) (h : Course run label n written result) :
    Course run label (n + 1) (block ++ written) result

variable {run : Uuid} {label : String} {written : List JournalEntry}
variable {result : Except RunError Execution}

/-- The blocks and the tail of a course. -/
theorem Course.exists_blocks {n : Nat} (h : Course run label n written result) :
    ∃ (blocks : List (List JournalEntry)) (tail : List JournalEntry),
      written = blocks.flatten ++ tail ∧ blocks.length = n ∧
        (∀ block ∈ blocks, IsBlock run block) ∧ IsTail run label tail result := by
  induction h with
  | @tail tail result h => exact ⟨[], tail, rfl, rfl, by simp, h⟩
  | @block block written result n hblock h ih =>
    obtain ⟨blocks, tail, rfl, rfl, hblocks, htail⟩ := ih
    refine ⟨block :: blocks, tail, by simp, rfl, ?_, htail⟩
    simpa using ⟨hblock, hblocks⟩

/-! ## Entries that close a run -/

theorem kind_of_mem_opening {step key : String} {retries : List (Nat × ProviderFailure)}
    {entry : JournalEntry} (h : entry ∈ opening run step key retries) :
    entry.kind = .stepStarted ∨ entry.kind = .stepRetrying := by
  rcases List.mem_cons.1 h with rfl | h
  · exact Or.inl rfl
  · obtain ⟨retry, -, rfl⟩ := List.mem_map.1 h
    exact Or.inr rfl

theorem not_isTerminal_of_mem_opening {step key : String}
    {retries : List (Nat × ProviderFailure)} {entry : JournalEntry}
    (h : entry ∈ opening run step key retries) : entry.kind.isTerminal = false := by
  rcases kind_of_mem_opening h with h | h <;> rw [h] <;> rfl

theorem IsBlock.kind_of_mem {block : List JournalEntry} (h : IsBlock run block)
    {entry : JournalEntry} (hentry : entry ∈ block) :
    entry.kind = .stepStarted ∨ entry.kind = .stepRetrying ∨ entry.kind = .stepCompleted := by
  obtain ⟨step, key, retries, durationMs, attempts⟩ := h
  rcases List.mem_append.1 hentry with hentry | hentry
  · exact (kind_of_mem_opening hentry).imp_right Or.inl
  · obtain rfl := List.mem_singleton.1 hentry
    exact Or.inr (Or.inr rfl)

theorem IsBlock.not_isTerminal {block : List JournalEntry} (h : IsBlock run block) :
    ∀ entry ∈ block, entry.kind.isTerminal = false := by
  intro entry hentry
  rcases h.kind_of_mem hentry with h | h | h <;> rw [h] <;> rfl

/-- The last entry of a tail closes its run, and none before it does. -/
theorem IsTail.exists_last (h : IsTail run label written result) :
    ∃ front last, written = front ++ [last] ∧ last.kind.isTerminal = true ∧
      ∀ entry ∈ front, entry.kind.isTerminal = false := by
  cases h with
  | completed | unread | refused | cancelled => exact ⟨[], _, rfl, rfl, by simp⟩
  | unbuilt => exact ⟨[_], _, rfl, rfl, by simp [stepFailed, RunEventKind.isTerminal]⟩
  | failed | limited =>
    refine ⟨_, _, rfl, rfl, ?_⟩
    intro entry hentry
    rcases List.mem_append.1 hentry with hentry | hentry
    · exact not_isTerminal_of_mem_opening hentry
    · obtain rfl := List.mem_singleton.1 hentry
      rfl
  | interrupted => exact ⟨_, _, rfl, rfl, fun entry hentry => not_isTerminal_of_mem_opening hentry⟩

/-- One entry closes a run, and it is the last one. -/
theorem Course.exists_last {n : Nat} (h : Course run label n written result) :
    ∃ front last, written = front ++ [last] ∧ last.kind.isTerminal = true ∧
      ∀ entry ∈ front, entry.kind.isTerminal = false := by
  induction h with
  | tail h => exact h.exists_last
  | @block block written result n hblock h ih =>
    obtain ⟨front, last, rfl, hlast, hfront⟩ := ih
    refine ⟨block ++ front, last, (List.append_assoc ..).symm, hlast, ?_⟩
    rw [List.forall_mem_append]
    exact ⟨hblock.not_isTerminal, hfront⟩

/-! ## Failures that are not written -/

/-- A run halted and its journal has no failure of a step. -/
def Silent (written : List JournalEntry) (result : Except RunError Execution) : Prop :=
  (∃ e, result = .ok e ∧ e.outcome.success = false) ∧ ∀ entry ∈ written, entry.kind ≠ .stepFailed

theorem silent_block_append_iff {block : List JournalEntry} (hblock : IsBlock run block) :
    Silent (block ++ written) result ↔ Silent written result := by
  have hkind : ∀ entry ∈ block, entry.kind ≠ .stepFailed := by
    intro entry hentry
    rcases hblock.kind_of_mem hentry with h | h | h <;> rw [h] <;> decide
  unfold Silent
  rw [List.forall_mem_append, and_iff_right hkind]

/-- Whoever writes the failure of a step is not silent about it. -/
theorem not_silent_append_stepFailed (front rest : List JournalEntry) (step error : String)
    (durationMs : Nat) :
    ¬ Silent (front ++ [.stepFailed run step error durationMs] ++ rest) result := by
  intro hsilent
  refine hsilent.2 (.stepFailed run step error durationMs) ?_ rfl
  exact List.mem_append_left rest (List.mem_append_right front (List.mem_singleton_self _))

theorem not_silent_succeeded (body : Payload) (ctx : Context) :
    ¬ Silent written (.ok ⟨run, .succeeded body, ctx⟩) := by
  rintro ⟨⟨e, ⟨⟩, hfail⟩, -⟩
  cases hfail

theorem not_silent_error (error : RunError) : ¬ Silent written (.error error) := by
  rintro ⟨⟨e, he, -⟩, -⟩
  cases he

/-- A run that halts without any other entry is silent. -/
theorem silent_runHalted {kind : RunEventKind} (hkind : kind ≠ .stepFailed)
    (step error text : String) (output : Option Value) (ctx : Context) :
    Silent [.runHalted run label kind text] (.ok ⟨run, .failed step error output, ctx⟩) :=
  ⟨⟨_, rfl, rfl⟩, List.forall_mem_singleton.2 hkind⟩

end JournalEntry

end PipelineEngine
