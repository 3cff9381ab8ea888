import PipelineEngine.Proofs.Run.Requests

/-!
# What a dialogue writes into the journal

The entries that a dialogue writes are among its requests, like the events that it delivers,
and those of a dialogue made of two are those of the first and then those of the second.

* `Dialogue.entries_seq` takes a dialogue apart.
* `Call.entries_attemptsFrom`: attempts write nothing; what they came to is written by the
  runner, one entry after the other (`Runner.entries_recordAll`).
-/

namespace PipelineEngine

/-- The entry that a request is to write. -/
def Request.entry? : Request → Option JournalEntry
  | .record entry => some entry
  | _ => none

namespace Dialogue

variable {α β σ : Type} (answer : (r : Request) → σ → r.Answer × σ)

/-- The entries that a dialogue writes in some surroundings, in order. -/
def entries (p : Dialogue α) (s : σ) : List JournalEntry :=
  (p.requests answer s).filterMap Request.entry?

@[simp] theorem entries_pure (a : α) (s : σ) : (pure a : Dialogue α).entries answer s = [] := rfl

theorem entries_seq (p : Dialogue α) (f : α → Dialogue β) (s : σ) :
    (p >>= f).entries answer s =
      p.entries answer s ++ (f (p.runWith answer s).1).entries answer (p.runWith answer s).2 := by
  rw [entries, requests_seq, List.filterMap_append]
  rfl

/-! What the clocks and the surroundings are asked is answered at once and not written. -/

@[simp] theorem runWith_uuid (s : σ) : uuid.runWith answer s = answer .uuid s := rfl
@[simp] theorem runWith_now (s : σ) : now.runWith answer s = answer .now s := rfl
@[simp] theorem runWith_timer (s : σ) : timer.runWith answer s = answer .timer s := rfl

@[simp] theorem runWith_isCancelled (s : σ) :
    isCancelled.runWith answer s = answer .isCancelled s := rfl

@[simp] theorem entries_uuid (s : σ) : uuid.entries answer s = [] := rfl
@[simp] theorem entries_now (s : σ) : now.entries answer s = [] := rfl
@[simp] theorem entries_timer (s : σ) : timer.entries answer s = [] := rfl
@[simp] theorem entries_isCancelled (s : σ) : isCancelled.entries answer s = [] := rfl

end Dialogue

open Dialogue

section
variable {σ : Type} (answer : (r : Request) → σ → r.Answer × σ)

theorem Call.entries_attemptsFrom (call : Call) (seconds : Nat) (policy : RetryPolicy)
    (deadline : Option Nat) (left attempt : Nat) (s : σ) :
    (call.attemptsFrom seconds policy deadline left attempt).entries answer s = [] := by
  induction left generalizing attempt s with
  | zero => rfl
  | succ left ih =>
    rw [Call.attemptsFrom, entries_seq]
    refine List.append_eq_nil_iff.2 ⟨rfl, ?_⟩
    split
    · split
      · rw [entries_seq]
        refine List.append_eq_nil_iff.2 ⟨rfl, ?_⟩
        split
        · rw [entries_seq, ih]
          rfl
        · rfl
        · rfl
      · rfl
    · rfl

namespace Runner

variable {r : Runner}

theorem entries_invoke (r : Runner) (step : Step) (input : Payload) (deadline : Option Nat)
    (s : σ) : (r.invoke step input deadline).entries answer s = [] := by
  unfold invoke
  split
  · rfl
  · exact Call.entries_attemptsFrom answer _ _ _ _ _ _ s

theorem entries_record (hjournal : r.journal = true) (entry : JournalEntry) (s : σ) :
    (r.record entry).entries answer s = [entry] := by
  rw [record, if_pos hjournal]
  rfl

theorem runWith_record (hjournal : r.journal = true) (entry : JournalEntry) (s : σ) :
    (r.record entry).runWith answer s = answer (.record entry) s := by
  rw [record, if_pos hjournal]
  rfl

theorem entries_recordAll (hjournal : r.journal = true) (entries : List JournalEntry) (s : σ) :
    (r.recordAll entries).entries answer s = entries := by
  induction entries generalizing s with
  | nil => rfl
  | cons entry rest ih =>
    rw [recordAll, entries_seq, entries_record answer hjournal, ih]
    rfl

end Runner

end

end PipelineEngine
