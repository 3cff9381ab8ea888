import Mathlib.Data.List.Induction
import PipelineEngine.Engine.Basic
import PipelineEngine.Proofs.Job.Board

/-!
# Histories of jobs

Reloads, ticks, dispatches and ends of runs in any order, and the runs of jobs that are in
flight between them.  The mark that keeps a job from running twice belongs to what the
board knows of the job, and a tick that does not find the job enabled forgets that while
the run goes on.

* `Dispatcher.Becomes`: all that one event can do.
* `Dispatcher.Guards`: a run in flight holds the mark of its job, or a tick has forgotten
  the job since; every event keeps this (`Guards.step`).
* `Dispatcher.forall_apart_iff`: no job is ever in flight twice exactly when no job is
  started while a run that was so forgotten is in flight.
-/

namespace PipelineEngine

/-- What happens to an engine with jobs. -/
inductive JobEvent where
  | reload (d : Document)
  | tick (now : Instant)
  /-- A job that is due is to be started. -/
  | dispatch (t : JobTick)
  /-- The run with the mark has ended. -/
  | finish (mark : Nat)

/-- A run of a job that has not ended. -/
structure Flight where
  job : String
  mark : Nat
deriving DecidableEq

/-- An engine and the runs of its jobs. -/
structure Dispatcher where
  engine : Engine
  flights : List Flight

namespace Dispatcher

/-- The dispatcher of an engine of which no job has been started. -/
def idle (e : Engine) : Dispatcher := ⟨e, []⟩

/-- What an event makes of a dispatcher.  A document with faults changes nothing, nor does
a fire that is skipped. -/
def step (s : Dispatcher) : JobEvent → Except SpanOverflow Dispatcher
  | .reload d =>
    match s.engine.reload d with
    | .ok e => .ok { s with engine := e }
    | .error _ => .ok s
  | .tick now => do
    let (_, e) ← s.engine.tick now
    return { s with engine := e }
  | .dispatch t =>
    match s.engine.dispatch? t with
    | some (mark, _, e) => .ok ⟨e, ⟨t.job, mark⟩ :: s.flights⟩
    | none => .ok s
  | .finish mark =>
    .ok ⟨{ s.engine with jobs := s.engine.jobs.finish mark }, s.flights.filter (·.mark ≠ mark)⟩

/-- What some events make of a dispatcher, one after the other. -/
def after (s : Dispatcher) (events : List JobEvent) : Except SpanOverflow Dispatcher :=
  events.foldlM step s

theorem after_concat {s s' : Dispatcher} {past : List JobEvent} {event : JobEvent} :
    s.after (past ++ [event]) = .ok s' ↔ ∃ s₁, s.after past = .ok s₁ ∧ s₁.step event = .ok s' := by
  rw [after, List.foldlM_append, Fallible.bind_eq_ok_iff]
  simp only [List.foldlM_cons, List.foldlM_nil, Fallible.bind_eq_ok_iff]
  constructor
  · rintro ⟨s₁, hpast, s₂, hstep, h⟩
    cases h
    exact ⟨s₁, hpast, hstep⟩
  · rintro ⟨s₁, hpast, hstep⟩
    exact ⟨s₁, hpast, s', hstep, rfl⟩

/-- No job is in flight twice. -/
def Apart (s : Dispatcher) : Prop := s.flights.Pairwise fun f g => f.job ≠ g.job

instance (s : Dispatcher) : Decidable s.Apart :=
  inferInstanceAs (Decidable (s.flights.Pairwise fun f g => f.job ≠ g.job))

/-- A tick found the job of a run not enabled while the run was in flight. -/
def Forgets (s : Dispatcher) (past : List JobEvent) (f : Flight) : Prop :=
  ∃ before now between s₁, past = before ++ .tick now :: between ∧ s.after before = .ok s₁ ∧
    f ∈ s₁.flights ∧ ¬ JobBoard.Enables s₁.engine.model f.job

/-- A job is started while a run of it is in flight that a tick has forgotten. -/
def Overtakes (s : Dispatcher) (events : List JobEvent) : Prop :=
  ∃ past t rest s₁ f, events = past ++ .dispatch t :: rest ∧ s.after past = .ok s₁ ∧
    (s₁.engine.dispatch? t).isSome ∧ f ∈ s₁.flights ∧ f.job = t.job ∧ s.Forgets past f

variable {s s₁ s' : Dispatcher} {past : List JobEvent} {f : Flight}

theorem Forgets.concat (h : s.Forgets past f) (event : JobEvent) :
    s.Forgets (past ++ [event]) f := by
  obtain ⟨before, now, between, s₁, rfl, hbefore, hf, hdisabled⟩ := h
  exact ⟨before, now, between ++ [event], s₁, by simp, hbefore, hf, hdisabled⟩

/-! ## Single events -/

theorem dispatch?_eq_some {e e' : Engine} {t : JobTick} {mark : Nat}
    {run : Dialogue (Except RunError Execution)} (h : e.dispatch? t = some (mark, run, e')) :
    e.jobs.mark? t.job = some mark ∧ mark ∉ e.jobs.running ∧
      e' = { e with jobs := { e.jobs with running := mark :: e.jobs.running } } := by
  rw [Engine.dispatch?, Option.bind_eq_bind, Option.bind_eq_some_iff] at h
  obtain ⟨⟨k, jobs⟩, hstart, h⟩ := h
  cases h
  unfold JobBoard.start? at hstart
  split at hstart
  · cases hstart
  · rename_i state hstate
    split at hstart
    · cases hstart
    · rename_i hfree
      cases hstart
      exact ⟨by rw [JobBoard.mark?, hstate]; rfl, hfree, rfl⟩

theorem tick_eq_ok {e e' : Engine} {now : Instant} {ticks : List JobTick}
    (h : e.tick now = .ok (ticks, e')) :
    ∃ jobs, e.jobs.tick e.model now = .ok (ticks, jobs) ∧ e' = { e with jobs } := by
  rw [Engine.tick, Fallible.bind_eq_ok_iff] at h
  obtain ⟨⟨ticks', jobs⟩, htick, h⟩ := h
  cases h
  exact ⟨jobs, htick, rfl⟩

theorem reload_eq_ok {e e' : Engine} {d : Document} (h : e.reload d = .ok e') :
    ∃ m, e.snapshots.candidate d = .ok m ∧ e' = { e with snapshots := ⟨m, m.epoch⟩ } := by
  rw [Engine.reload, Fallible.bind_eq_ok_iff] at h
  obtain ⟨snapshots, hsnapshots, h⟩ := h
  rw [Snapshots.reload, Fallible.map_eq_ok_iff] at hsnapshots
  obtain ⟨m, hm, rfl⟩ := hsnapshots
  cases h
  exact ⟨m, hm, rfl⟩

/-- What an event makes of a dispatcher, case by case. -/
inductive Becomes (s : Dispatcher) : JobEvent → Dispatcher → Prop where
  | refused (d : Document) : s.Becomes (.reload d) s
  | loaded (d : Document) (m : Model) (hcandidate : s.engine.snapshots.candidate d = .ok m) :
      s.Becomes (.reload d) { s with engine := { s.engine with snapshots := ⟨m, m.epoch⟩ } }
  | ticked (now : Instant) (ticks : List JobTick) (jobs : JobBoard)
      (htick : s.engine.jobs.tick s.engine.model now = .ok (ticks, jobs)) :
      s.Becomes (.tick now) { s with engine := { s.engine with jobs } }
  | skipped (t : JobTick) : s.Becomes (.dispatch t) s
  | started (t : JobTick) (mark : Nat) (hdispatch : (s.engine.dispatch? t).isSome)
      (hmark : s.engine.jobs.mark? t.job = some mark) (hfree : mark ∉ s.engine.jobs.running) :
      s.Becomes (.dispatch t)
        ⟨{ s.engine with jobs := { s.engine.jobs with running := mark :: s.engine.jobs.running } },
          ⟨t.job, mark⟩ :: s.flights⟩
  | finished (mark : Nat) :
      s.Becomes (.finish mark)
        ⟨{ s.engine with jobs := s.engine.jobs.finish mark }, s.flights.filter (·.mark ≠ mark)⟩

theorem becomes_of_step {event : JobEvent} (h : s.step event = .ok s') : s.Becomes event s' := by
  cases event with
  | reload d =>
    rw [step] at h
    cases hreload : s.engine.reload d with
    | error faults =>
      simp only [hreload] at h
      cases h
      exact .refused d
    | ok e =>
      simp only [hreload] at h
      cases h
      obtain ⟨m, hm, rfl⟩ := reload_eq_ok hreload
      exact .loaded d m hm
  | tick now =>
    rw [step, Fallible.bind_eq_ok_iff] at h
    obtain ⟨⟨ticks, e⟩, htick, h⟩ := h
    cases h
    obtain ⟨jobs, hjobs, rfl⟩ := tick_eq_ok htick
    exact .ticked now ticks jobs hjobs
  | dispatch t =>
    rw [step] at h
    cases hdispatch : s.engine.dispatch? t with
    | none =>
      simp only [hdispatch] at h
      cases h
      exact .skipped t
    | some start =>
      obtain ⟨mark, run, e⟩ := start
      simp only [hdispatch] at h
      cases h
      obtain ⟨hmark, hfree, rfl⟩ := dispatch?_eq_some hdispatch
      exact .started t mark (hdispatch ▸ rfl) hmark hfree
  | finish mark =>
    cases h
    exact .finished mark

/-! ## The mark of a run -/

/-- Every run in flight has its mark set, and it is the mark of the job unless a tick has
forgotten the job since. -/
structure Guards (s : Dispatcher) (past : List JobEvent) (s₁ : Dispatcher) : Prop where
  running : ∀ f ∈ s₁.flights, f.mark ∈ s₁.engine.jobs.running
  held : ∀ f ∈ s₁.flights, s₁.engine.jobs.mark? f.job = some f.mark ∨ s.Forgets past f

theorem Guards.idle (e : Engine) : Guards (idle e) [] (idle e) := ⟨nofun, nofun⟩

/-- An event that leaves the runs and the marks alone. -/
theorem Guards.of_same (h : Guards s past s₁) {event : JobEvent}
    (hflights : s'.flights = s₁.flights) (hjobs : s'.engine.jobs = s₁.engine.jobs) :
    Guards s (past ++ [event]) s' := by
  constructor
  · rw [hflights, hjobs]
    exact h.running
  · rw [hflights, hjobs]
    exact fun f hf => (h.held f hf).imp_right (·.concat event)

theorem Guards.tick (h : Guards s past s₁) (hpast : s.after past = .ok s₁) {now : Instant}
    {ticks : List JobTick} {jobs : JobBoard}
    (htick : s₁.engine.jobs.tick s₁.engine.model now = .ok (ticks, jobs)) :
    Guards s (past ++ [.tick now]) ⟨{ s₁.engine with jobs }, s₁.flights⟩ := by
  constructor
  · intro f hf
    show f.mark ∈ jobs.running
    rw [JobBoard.running_tick htick]
    exact h.running f hf
  · intro f hf
    rcases h.held f hf with hmark | hforgets
    · by_cases henabled : JobBoard.Enables s₁.engine.model f.job
      · exact Or.inl (JobBoard.mark?_tick htick henabled hmark)
      · exact Or.inr ⟨past, now, [], s₁, rfl, hpast, hf, henabled⟩
    · exact Or.inr (hforgets.concat _)

theorem Guards.dispatch (h : Guards s past s₁) {t : JobTick} {mark : Nat}
    (hmark : s₁.engine.jobs.mark? t.job = some mark) :
    Guards s (past ++ [.dispatch t])
      ⟨{ s₁.engine with
        jobs := { s₁.engine.jobs with running := mark :: s₁.engine.jobs.running } },
        ⟨t.job, mark⟩ :: s₁.flights⟩ := by
  constructor
  · intro f hf
    rcases List.mem_cons.1 hf with rfl | hf
    · exact List.mem_cons_self
    · exact List.mem_cons_of_mem _ (h.running f hf)
  · intro f hf
    rcases List.mem_cons.1 hf with rfl | hf
    · exact Or.inl hmark
    · exact (h.held f hf).imp_right (·.concat _)

theorem Guards.finish (h : Guards s past s₁) (mark : Nat) :
    Guards s (past ++ [.finish mark])
      ⟨{ s₁.engine with jobs := s₁.engine.jobs.finish mark },
        s₁.flights.filter (·.mark ≠ mark)⟩ := by
  constructor
  · intro f hf
    obtain ⟨hf, hother⟩ := List.mem_filter.1 hf
    exact List.mem_filter.2 ⟨h.running f hf, hother⟩
  · intro f hf
    exact (h.held f (List.mem_filter.1 hf).1).imp_right (·.concat _)

/-- Every event keeps the runs guarded. -/
theorem Guards.step (h : Guards s past s₁) (hpast : s.after past = .ok s₁) {event : JobEvent}
    (hstep : s₁.step event = .ok s') : Guards s (past ++ [event]) s' := by
  cases becomes_of_step hstep with
  | refused d => exact h.of_same rfl rfl
  | loaded d m hcandidate => exact h.of_same rfl rfl
  | ticked now ticks jobs htick => exact h.tick hpast htick
  | skipped t => exact h.of_same rfl rfl
  | started t mark hdispatch hmark hfree => exact h.dispatch hmark
  | finished mark => exact h.finish mark

/-- After any events the runs are guarded. -/
theorem guards_of_after {e : Engine} (h : (idle e).after past = .ok s₁) :
    Guards (idle e) past s₁ := by
  induction past using List.reverseRecOn generalizing s₁ with
  | nil =>
    cases h
    exact .idle e
  | append_singleton past event ih =>
    obtain ⟨s₀, hpast, hstep⟩ := after_concat.1 h
    exact (ih hpast).step hpast hstep

/-! ## Jobs in flight twice -/

/-- Only a dispatch that starts a job of which a run is in flight brings it into flight
twice. -/
theorem Apart.step (h : s₁.Apart) {event : JobEvent} (hstep : s₁.step event = .ok s') :
    s'.Apart ∨ ∃ t, event = .dispatch t ∧ (s₁.engine.dispatch? t).isSome ∧
      ∃ f ∈ s₁.flights, f.job = t.job := by
  cases becomes_of_step hstep with
  | refused d => exact Or.inl h
  | loaded d m hcandidate => exact Or.inl h
  | ticked now ticks jobs htick => exact Or.inl h
  | skipped t => exact Or.inl h
  | started t mark hdispatch hmark hfree =>
    by_cases hagain : ∃ f ∈ s₁.flights, f.job = t.job
    · exact Or.inr ⟨t, rfl, hdispatch, hagain⟩
    · refine Or.inl (List.pairwise_cons.2 ⟨?_, h⟩)
      intro f hf heq
      exact hagain ⟨f, hf, heq.symm⟩
  | finished mark => exact Or.inl (h.filter _)

/-- A job that is started while a run of it is in flight is in flight twice. -/
theorem not_apart_of_dispatch {t : JobTick} (hdispatch : (s₁.engine.dispatch? t).isSome)
    (hf : f ∈ s₁.flights) (hjob : f.job = t.job) :
    ∃ s', s₁.step (.dispatch t) = .ok s' ∧ ¬ s'.Apart := by
  obtain ⟨⟨mark, run, e⟩, hstart⟩ := Option.isSome_iff_exists.1 hdispatch
  refine ⟨⟨e, ⟨t.job, mark⟩ :: s₁.flights⟩, by rw [Dispatcher.step, hstart], ?_⟩
  intro hapart
  exact (List.pairwise_cons.1 hapart).1 f hf hjob.symm

/-- After every part of a history each job is in flight at most once, exactly when at no
point of it a job is started while a run of it is in flight that a tick has forgotten: one
that found the job removed or disabled when the run was in flight already. -/
theorem forall_apart_iff (e : Engine) (events : List JobEvent) :
    (∀ past rest s₁, events = past ++ rest → (idle e).after past = .ok s₁ → s₁.Apart) ↔
      ¬ (idle e).Overtakes events := by
  constructor
  · rintro hall ⟨past, t, rest, s₁, f, rfl, hpast, hdispatch, hf, hjob, -⟩
    obtain ⟨s', hstep, htwice⟩ := not_apart_of_dispatch hdispatch hf hjob
    exact htwice (hall (past ++ [.dispatch t]) rest s' (by simp)
      (after_concat.2 ⟨s₁, hpast, hstep⟩))
  · intro hnever past
    induction past using List.reverseRecOn with
    | nil =>
      intro rest s₁ _ hpast
      cases hpast
      exact List.Pairwise.nil
    | append_singleton past event ih =>
      intro rest s' hevents hafter
      obtain ⟨s₁, hpast, hstep⟩ := after_concat.1 hafter
      have hevents' : events = past ++ event :: rest := by simpa using hevents
      have hguards := guards_of_after hpast
      rcases (ih _ s₁ hevents' hpast).step hstep with hapart | ⟨t, rfl, hdispatch, f, hf, hjob⟩
      · exact hapart
      · obtain ⟨⟨mark, run, e'⟩, hstart⟩ := Option.isSome_iff_exists.1 hdispatch
        obtain ⟨hmark, hfree, -⟩ := dispatch?_eq_some hstart
        rcases hguards.held f hf with hheld | hforgets
        · -- The run holds the job's mark, which is set: nothing could have been started.
          rw [hjob, hmark] at hheld
          cases hheld
          exact absurd (hguards.running f hf) hfree
        · exact absurd ⟨past, t, rest, s₁, f, hevents', hpast, hdispatch, hf, hjob, hforgets⟩ hnever

end Dispatcher

/-! ### A job that is disabled for a minute -/

/-- A job that fires every hour. -/
def Job.hourly (enabled : Bool) : Job :=
  ⟨"sweep", "p", enabled, true, "2024-01-01T00:00:00Z", none, "hour", none⟩

/-- A document with the job. -/
def sweeping (enabled : Bool) : Document :=
  ⟨[], [], [], ⟨.empty, none, none, [⟨"p", [], none⟩], [.hourly enabled]⟩, []⟩

/-- A point some minutes after the first fire of the job. -/
def minutes (n : Nat) : Instant := ⟨1704067200 + n * 60, 0⟩

/-- A fire of the job. -/
def sweep (n : Nat) : JobTick := ⟨"sweep", "p", minutes n⟩

/-- The engine of the document with the job enabled. -/
def sweeper : Engine :=
  ⟨.ofModel ((sweeping true).linked 0), .standard .builtinOnly, .ofCapacity 8, .empty,
    .empty default⟩

namespace Dispatcher

/-- The job is started; before it ends it is disabled over a tick, and enabled again. -/
def relapse : List JobEvent :=
  [.tick (minutes 0), .dispatch (sweep 0), .reload (sweeping false), .tick (minutes 1),
    .reload (sweeping true), .tick (minutes 60)]

theorem not_apart_of_relapse :
    Engine.ofDocument (sweeping true) (.standard .builtinOnly) default 8 = .ok sweeper ∧
      (sweeping false).faults = [] ∧
      (sweeper.tick (minutes 0)).toOption.map (·.1) = some [sweep 0] ∧
      ((idle sweeper).after (relapse.take 5) >>= (·.engine.tick (minutes 60))).toOption.map (·.1) =
        some [sweep 60] ∧
      ∃ s, (idle sweeper).after (relapse ++ [.dispatch (sweep 60)]) = .ok s ∧ ¬ s.Apart := by
  have hflights : ((idle sweeper).after (relapse ++ [.dispatch (sweep 60)])).toOption.map
      (·.flights) = some [⟨"sweep", 1⟩, ⟨"sweep", 0⟩] := by rfl
  obtain ⟨s, hs, htwice⟩ := Option.map_eq_some_iff.1 hflights
  refine ⟨rfl, rfl, rfl, rfl, s, ?_, ?_⟩
  · cases hafter : (idle sweeper).after (relapse ++ [.dispatch (sweep 60)]) with
    | error e =>
      rw [hafter] at hs
      cases hs
    | ok s' =>
      rw [hafter] at hs
      cases hs
      rfl
  · rw [Apart, htwice]
    decide

end Dispatcher

end PipelineEngine
