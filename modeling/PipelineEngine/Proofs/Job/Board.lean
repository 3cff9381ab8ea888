import PipelineEngine.Job.Board
import PipelineEngine.Proofs.Fallible
import PipelineEngine.Proofs.Fields

/-!
# What a tick does to the board

A tick takes the enabled jobs one after the other, and what it does for one of them
depends on nothing that the board knows of the others.

* `JobBoard.tickJob_cases`: everything that a tick does for one job.
* `JobBoard.mark?_tick`: a job that the tick finds enabled keeps its mark.
* `JobBoard.exists_due_of_tickJobs`: what it shows of one job among several.
-/

namespace PipelineEngine

/-- Leaving out names leaves the other ones as they are. -/
theorem Fields.get?_filter {α : Type} (fields : Fields α) (keep : String → Bool) (name : String) :
    Fields.get? (fields.filter fun kv => keep kv.1) name =
      if keep name then fields.get? name else none := by
  induction fields with
  | nil => simp
  | cons kv rest ih =>
    obtain ⟨k, v⟩ := kv
    by_cases hk : name = k
    · subst hk
      cases hkeep : keep name <;> simp [get?, hkeep, ih]
    · cases hkeep : keep k <;> simp [get?, hk, hkeep, ih]

namespace JobBoard

variable {b b' : JobBoard} {m : Model} {now : Instant} {job : String}

/-! ## The state of one job -/

@[simp] theorem states_stateOf : (b.stateOf job).2.states = b.states := by
  unfold stateOf
  split <;> rfl

@[simp] theorem running_stateOf : (b.stateOf job).2.running = b.running := by
  unfold stateOf
  split <;> rfl

theorem stateOf_of_get? {s : JobState} (h : b.states.get? job = some s) :
    (b.stateOf job).1 = s := by
  simp [stateOf, h]

theorem mark_scheduled {s s' : JobState} {schedule : Schedule} {epoch : Nat}
    (h : scheduled s schedule epoch now = .ok s') : s'.mark = s.mark := by
  unfold scheduled at h
  split at h
  · cases h
    rfl
  · rw [Fallible.bind_eq_ok_iff] at h
    obtain ⟨fire, -, h⟩ := h
    cases h
    rfl

theorem mark_due {s s' : JobState} {schedule : Schedule} {fire : Option Instant}
    (h : due s schedule now = .ok (fire, s')) : s'.mark = s.mark := by
  unfold due at h
  split at h
  · cases h
    rfl
  · split at h
    · cases h
      rfl
    · rw [Fallible.bind_eq_ok_iff] at h
      obtain ⟨fire, -, h⟩ := h
      cases h
      rfl

/-- A tick does nothing for a job without a schedule.  For any other job it looks up the
next fire if the model is new, and moves on if that has come. -/
theorem tickJob_cases {j : Job} {tick : Option JobTick} (h : b.tickJob m now j = .ok (tick, b')) :
    (m.schedule? j.name = none ∧ tick = none ∧ b' = b) ∨
      ∃ schedule s fire s', m.schedule? j.name = some schedule ∧
        scheduled (b.stateOf j.name).1 schedule m.epoch now = .ok s ∧
        due s schedule now = .ok (fire, s') ∧ tick = fire.map (⟨j.name, j.pipeline, ·⟩) ∧
        b'.states = b.states.insert j.name s' ∧ b'.running = b.running := by
  unfold tickJob at h
  cases hschedule : m.schedule? j.name with
  | none =>
    simp only [hschedule] at h
    cases h
    exact Or.inl ⟨rfl, rfl, rfl⟩
  | some schedule =>
    simp only [hschedule] at h
    rw [Fallible.bind_eq_ok_iff] at h
    obtain ⟨s, hs, h⟩ := h
    rw [Fallible.bind_eq_ok_iff] at h
    obtain ⟨⟨fire, s'⟩, hdue, h⟩ := h
    cases h
    exact Or.inr ⟨schedule, s, fire, s', rfl, hs, hdue, rfl, by simp, by simp⟩

/-! ## Marks -/

/-- The mark of a job that the board knows. -/
def mark? (b : JobBoard) (job : String) : Option Nat := (b.states.get? job).map (·.mark)

theorem mark?_tickJob {j : Job} {tick : Option JobTick} (h : b.tickJob m now j = .ok (tick, b'))
    {k : Nat} (hk : b.mark? job = some k) : b'.mark? job = some k := by
  rcases tickJob_cases h with ⟨-, -, rfl⟩ | ⟨schedule, s, fire, s', -, hs, hdue, -, hstates, -⟩
  · exact hk
  · rw [mark?, hstates, Fields.get?_insert]
    split
    · rename_i hjob
      subst hjob
      obtain ⟨old, hget, rfl⟩ := Option.map_eq_some_iff.1 hk
      have hmark : s'.mark = old.mark := by
        rw [mark_due hdue, mark_scheduled hs, stateOf_of_get? hget]
      simp [hmark]
    · exact hk

theorem mark?_tickJobs {jobs : List Job} {ticks : List JobTick}
    (h : tickJobs m now jobs b = .ok (ticks, b')) {k : Nat} (hk : b.mark? job = some k) :
    b'.mark? job = some k := by
  induction jobs generalizing b ticks with
  | nil =>
    cases h
    exact hk
  | cons j rest ih =>
    rw [tickJobs, Fallible.bind_eq_ok_iff] at h
    obtain ⟨⟨tick, b₁⟩, hj, h⟩ := h
    rw [Fallible.bind_eq_ok_iff] at h
    obtain ⟨⟨ticks₁, b₂⟩, hrest, h⟩ := h
    cases h
    exact ih hrest (mark?_tickJob hj hk)

theorem running_tickJobs {jobs : List Job} {ticks : List JobTick}
    (h : tickJobs m now jobs b = .ok (ticks, b')) : b'.running = b.running := by
  induction jobs generalizing b ticks with
  | nil =>
    cases h
    rfl
  | cons j rest ih =>
    rw [tickJobs, Fallible.bind_eq_ok_iff] at h
    obtain ⟨⟨tick, b₁⟩, hj, h⟩ := h
    rw [Fallible.bind_eq_ok_iff] at h
    obtain ⟨⟨ticks₁, b₂⟩, hrest, h⟩ := h
    cases h
    rw [ih hrest]
    rcases tickJob_cases hj with ⟨-, -, rfl⟩ | ⟨_, _, _, _, -, -, -, -, -, hrunning⟩
    · rfl
    · exact hrunning

/-! ## One job of several -/

theorem get?_tickJob_of_ne {j : Job} {tick : Option JobTick}
    (h : b.tickJob m now j = .ok (tick, b')) (hne : job ≠ j.name) :
    b'.states.get? job = b.states.get? job ∧ tick.toList.filter (·.job = job) = [] := by
  rcases tickJob_cases h with ⟨-, rfl, rfl⟩ | ⟨schedule, s, fire, s', -, -, -, rfl, hstates, -⟩
  · exact ⟨rfl, rfl⟩
  · refine ⟨by rw [hstates, Fields.get?_insert, if_neg hne], ?_⟩
    cases fire with
    | none => rfl
    | some f => simp [hne.symm]

/-- A tick shows nothing of a job that is not among those it takes, and keeps what the board
knows of it. -/
theorem get?_tickJobs_of_ne {jobs : List Job} {ticks : List JobTick}
    (h : tickJobs m now jobs b = .ok (ticks, b')) (hne : ∀ j ∈ jobs, job ≠ j.name) :
    b'.states.get? job = b.states.get? job ∧ ticks.filter (·.job = job) = [] := by
  induction jobs generalizing b ticks with
  | nil =>
    cases h
    exact ⟨rfl, rfl⟩
  | cons j rest ih =>
    rw [tickJobs, Fallible.bind_eq_ok_iff] at h
    obtain ⟨⟨tick, b₁⟩, hj, h⟩ := h
    rw [Fallible.bind_eq_ok_iff] at h
    obtain ⟨⟨ticks₁, b₂⟩, hrest, h⟩ := h
    cases h
    obtain ⟨hget, hticks⟩ := get?_tickJob_of_ne hj (hne j List.mem_cons_self)
    obtain ⟨hget', hticks'⟩ := ih hrest fun j' hj' => hne j' (List.mem_cons_of_mem _ hj')
    exact ⟨hget'.trans hget, by rw [List.filter_append, hticks, hticks', List.append_nil]⟩

/-- What a tick does for one of some jobs with different names: it starts from what the board
knows of the job, or from a state that no model was looked up for. -/
theorem exists_due_of_tickJobs {jobs : List Job} (hnames : (jobs.map (·.name)).Nodup) {j : Job}
    (hj : j ∈ jobs) {schedule : Schedule} (hschedule : m.schedule? j.name = some schedule)
    {ticks : List JobTick} (h : tickJobs m now jobs b = .ok (ticks, b')) :
    ∃ s₀ s₁ fire s₂, (∀ s, b.states.get? j.name = some s → s₀ = s) ∧
      (b.states.get? j.name = none → s₀.epoch = none) ∧
      scheduled s₀ schedule m.epoch now = .ok s₁ ∧ due s₁ schedule now = .ok (fire, s₂) ∧
      b'.states.get? j.name = some s₂ ∧
      (ticks.filter (·.job = j.name)).map (·.fireAt) = fire.toList := by
  induction jobs generalizing b ticks with
  | nil => cases hj
  | cons j₀ rest ih =>
    rw [List.map_cons, List.nodup_cons] at hnames
    rw [tickJobs, Fallible.bind_eq_ok_iff] at h
    obtain ⟨⟨tick, b₁⟩, hfirst, h⟩ := h
    rw [Fallible.bind_eq_ok_iff] at h
    obtain ⟨⟨ticks₁, b₂⟩, hrest, h⟩ := h
    cases h
    rcases List.mem_cons.1 hj with rfl | hj
    · have hothers : ∀ j' ∈ rest, j.name ≠ j'.name := by
        intro j' hj' heq
        exact hnames.1 (heq ▸ List.mem_map.2 ⟨j', hj', rfl⟩)
      obtain ⟨hget, hticks⟩ := get?_tickJobs_of_ne hrest hothers
      rcases tickJob_cases hfirst with ⟨hnone, -, -⟩ |
        ⟨schedule', s₁, fire, s₂, hsome, hscheduled, hdue, rfl, hstates, -⟩
      · rw [hschedule] at hnone
        cases hnone
      · rw [hschedule] at hsome
        cases hsome
        refine ⟨_, s₁, fire, s₂, ?_, ?_, hscheduled, hdue, ?_, ?_⟩
        · exact fun s hs => stateOf_of_get? hs
        · intro hnone
          simp [stateOf, hnone]
        · rw [hget, hstates, Fields.get?_insert, if_pos rfl]
        · rw [List.filter_append, hticks]
          cases fire <;> simp
    · have hne : j.name ≠ j₀.name := by
        intro heq
        exact hnames.1 (heq ▸ List.mem_map.2 ⟨j, hj, rfl⟩)
      obtain ⟨hget, hticks⟩ := get?_tickJob_of_ne hfirst hne
      obtain ⟨s₀, s₁, fire, s₂, hs₀, hnone, hscheduled, hdue, hs₂, hfire⟩ := ih hnames.2 hj hrest
      rw [hget] at hs₀ hnone
      exact ⟨s₀, s₁, fire, s₂, hs₀, hnone, hscheduled, hdue, hs₂, by
        rw [List.filter_append, hticks, List.nil_append, hfire]⟩

/-- Whether a job is enabled in a model. -/
def Enables (m : Model) (job : String) : Prop := ∃ j ∈ enabled m, j.name = job

theorem get?_retain_of_enables (h : Enables m job) :
    (b.retain m).states.get? job = b.states.get? job := by
  obtain ⟨j, hj, hname⟩ := h
  have hany : (enabled m).any (fun j => decide (j.name = job)) = true :=
    List.any_eq_true.2 ⟨j, hj, decide_eq_true hname⟩
  have hfilter := Fields.get?_filter b.states
    (fun name => (enabled m).any fun j => decide (j.name = name)) job
  rw [if_pos hany] at hfilter
  exact hfilter

/-- A tick keeps the mark of a job that it finds enabled. -/
theorem mark?_tick {ticks : List JobTick} (h : b.tick m now = .ok (ticks, b'))
    (henabled : Enables m job) {k : Nat} (hk : b.mark? job = some k) : b'.mark? job = some k := by
  have hretained : (b.retain m).mark? job = some k := by
    rw [mark?, get?_retain_of_enables henabled]
    exact hk
  exact mark?_tickJobs h hretained

theorem running_tick {ticks : List JobTick} (h : b.tick m now = .ok (ticks, b')) :
    b'.running = b.running := by
  rw [running_tickJobs h]
  rfl

end JobBoard

end PipelineEngine
