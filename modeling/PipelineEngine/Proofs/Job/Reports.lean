import PipelineEngine.Proofs.Job.History
import PipelineEngine.Proofs.Schedule.Declared

/-!
# What ticks report of a job

Ticks and reloads in any order, and the fires of one job that the ticks report.  The next
fire that the board keeps is the earliest one after the last tick, as long as the model stays
the same; under a new model it is looked up again from the time of the tick, so what fell
between the two ticks is not looked for, and what falls on the tick is found once more.

* `JobBoard.shown_of_due`, `JobBoard.earliest_of_due`: what the board reports and keeps, by
  what it kept before.
* `Dispatcher.Shows`: what ticks do for one job, whatever happens between them.
* `Dispatcher.continues_of_reports`: every report covers the fires since the report before
  it, or those at its own time where the model is new.
* `Dispatcher.reports_exact_iff`: the reports lose and repeat nothing exactly when no new
  model is met at a tick that has a fire behind it, or on it a second time.
-/

namespace PipelineEngine

namespace JobBoard

variable {schedule : Schedule} {s s' : JobState} {now : Instant} {epoch : Nat}

/-- The next fire after a new model was met is the first one from that time on. -/
theorem earliest_of_scheduled (hs : schedule.WellFormed) (hclock : schedule.start.OnClock)
    (hrecurs : schedule.Recurs) (hnow : now.OnClock) (hnew : s.epoch ≠ some epoch)
    (h : scheduled s schedule epoch now = .ok s') :
    s'.epoch = some epoch ∧
      Instant.Earliest (fun f => schedule.IsFire f ∧ now ≤ f) s'.nextFire := by
  rw [scheduled, if_neg hnew, Fallible.bind_eq_ok_iff] at h
  obtain ⟨fire, hfire, h⟩ := h
  cases h
  exact ⟨rfl, Schedule.earliest_of_fireAtOrAfter hs hclock hnow (fun _ => hrecurs) hfire⟩

/-- The board reports the first of the fires that it was waiting for, if that has come.  Only
then it looks up the next one after the tick. -/
theorem shown_of_due {since : Instant → Prop}
    (hnext : Instant.Earliest (fun f => schedule.IsFire f ∧ since f) s.nextFire)
    {fire : Option Instant} (h : due s schedule now = .ok (fire, s')) :
    Instant.Earliest (fun f => schedule.IsFire f ∧ since f ∧ f ≤ now) fire ∧
      s'.epoch = s.epoch ∧
      (fire = none ∧ s'.nextFire = s.nextFire ∨
        fire ≠ none ∧ schedule.nextFire now = .ok s'.nextFire) := by
  unfold due at h
  split at h
  · rename_i hnone
    cases h
    rw [hnone] at hnext
    exact ⟨fun g hg => hnext g ⟨hg.1, hg.2.1⟩, rfl, Or.inl ⟨rfl, rfl⟩⟩
  · rename_i first hsome
    rw [hsome] at hnext
    split at h
    · rename_i hlater
      cases h
      refine ⟨?_, rfl, Or.inl ⟨rfl, rfl⟩⟩
      exact fun g hg => absurd (hnext.2 g ⟨hg.1, hg.2.1⟩) (not_le.2 (hg.2.2.trans_lt hlater))
    · rename_i hcome
      rw [Fallible.bind_eq_ok_iff] at h
      obtain ⟨after, hafter, h⟩ := h
      cases h
      refine ⟨⟨⟨hnext.1.1, hnext.1.2, not_lt.1 hcome⟩, ?_⟩, rfl, Or.inr ⟨nofun, hafter⟩⟩
      exact fun g hg => hnext.2 g ⟨hg.1, hg.2.1⟩

/-- A board that was waiting for fires of which none has come waits for those after the
tick. -/
theorem earliest_after {since : Instant → Prop} (hsince : ∀ f, now < f → since f)
    {next : Option Instant} (hnext : Instant.Earliest (fun f => schedule.IsFire f ∧ since f) next)
    (hnone : ∀ f, schedule.IsFire f → since f → ¬ f ≤ now) :
    Instant.Earliest (fun f => schedule.IsFire f ∧ now < f) next :=
  hnext.congr fun f => and_congr_right fun hf =>
    ⟨fun hlate => not_le.1 (hnone f hf hlate), hsince f⟩

/-- The board reports the first of the fires that it was waiting for, if that has come, and
waits from then on for those after the tick. -/
theorem earliest_of_due (hs : schedule.WellFormed) (hordinary : schedule.IsOrdinary)
    {since : Instant → Prop} (hsince : ∀ f, now < f → since f)
    (hnext : Instant.Earliest (fun f => schedule.IsFire f ∧ since f) s.nextFire)
    {fire : Option Instant} (h : due s schedule now = .ok (fire, s')) :
    s'.epoch = s.epoch ∧
      Instant.Earliest (fun f => schedule.IsFire f ∧ since f ∧ f ≤ now) fire ∧
      Instant.Earliest (fun f => schedule.IsFire f ∧ now < f) s'.nextFire := by
  obtain ⟨hshown, hepoch, ⟨rfl, hsame⟩ | ⟨-, hafter⟩⟩ := shown_of_due hnext h
  · refine ⟨hepoch, hshown, hsame ▸ earliest_after hsince hnext ?_⟩
    exact fun f hf hlate hle => hshown f ⟨hf, hlate, hle⟩
  · exact ⟨hepoch, hshown, Schedule.earliest_of_nextFire hs hordinary hafter⟩

end JobBoard

/-! ## Reports -/

/-- What a tick showed of a job: the time, the epoch of the model in force, and the fires
that were reported. -/
structure TickReport where
  now : Instant
  epoch : Nat
  fires : List Instant
deriving DecidableEq

namespace TickReport

/-- The fires that a report looks back to: those after the report before it, or under a new
model those that have not passed. -/
def since (r : TickReport) : Option TickReport → Instant → Prop
  | some last, f => if last.epoch = r.epoch then last.now < f else r.now ≤ f
  | none, f => r.now ≤ f

/-- The report holds the first of the fires that it looks back to, if there are any. -/
def Covers (schedule : Schedule) (last : Option TickReport) (r : TickReport) : Prop :=
  ∃ fire, Instant.Earliest (fun f => schedule.IsFire f ∧ r.since last f ∧ f ≤ r.now) fire ∧
    r.fires = fire.toList

/-- Reports that follow one another in time and cover what they look back to. -/
def Continue (schedule : Schedule) : Option TickReport → List TickReport → Prop
  | _, [] => True
  | last, r :: rest =>
    (∀ a ∈ last, a.now ≤ r.now) ∧ r.Covers schedule last ∧ Continue schedule (some r) rest

/-- Some fire lies after the one report and not after the other. -/
def Between (schedule : Schedule) (a b : TickReport) : Prop :=
  ∃ f, schedule.IsFire f ∧ a.now < f ∧ f ≤ b.now

/-- Of two reports the second one shows the job exactly when some fire lies between. -/
def Exact (schedule : Schedule) (a b : TickReport) : Prop := b.fires ≠ [] ↔ Between schedule a b

/-- Where a new model is met, there is a fire at the time of the tick exactly when some fire
lies between the ticks. -/
def Meets (schedule : Schedule) (a b : TickReport) : Prop :=
  a.epoch ≠ b.epoch → (schedule.IsFire b.now ↔ Between schedule a b)

variable {schedule : Schedule} {last : Option TickReport} {a b r : TickReport}

/-- A report looks back at least to its own time. -/
theorem since_of_lt (htime : ∀ a ∈ last, a.now ≤ r.now) {f : Instant} (hf : r.now < f) :
    r.since last f := by
  cases last with
  | none => exact hf.le
  | some a =>
    rw [since]
    split
    · exact (htime a rfl).trans_lt hf
    · exact hf.le

theorem Covers.fires_ne_nil_iff (h : r.Covers schedule last) :
    r.fires ≠ [] ↔ ∃ f, schedule.IsFire f ∧ r.since last f ∧ f ≤ r.now := by
  obtain ⟨fire, hearliest, hfires⟩ := h
  rw [hfires]
  cases fire with
  | none =>
    simp only [Option.toList_none, ne_eq, not_true_eq_false, false_iff, not_exists]
    exact hearliest
  | some f =>
    simp only [Option.toList_some, ne_eq, List.cons_ne_self, not_false_eq_true, true_iff]
    exact ⟨f, hearliest.1⟩

/-- A report that covers what it looks back to is exact where the model stayed the same, and
otherwise where it meets the fires. -/
theorem exact_iff_meets (h : b.Covers schedule (some a)) :
    Exact schedule a b ↔ Meets schedule a b := by
  have hfires := h.fires_ne_nil_iff
  unfold Exact Meets
  by_cases hepoch : a.epoch = b.epoch
  · simp only [since, hepoch, if_true] at hfires
    simp only [hfires, hepoch, ne_eq, not_true_eq_false, false_implies, iff_true]
    exact Iff.rfl
  · simp only [since, hepoch, if_false] at hfires
    have hnow : (∃ f, schedule.IsFire f ∧ b.now ≤ f ∧ f ≤ b.now) ↔ schedule.IsFire b.now := by
      constructor
      · rintro ⟨f, hf, hle, hge⟩
        exact le_antisymm hle hge ▸ hf
      · exact fun hf => ⟨b.now, hf, le_rfl, le_rfl⟩
    rw [hfires, hnow]
    exact ⟨fun h _ => h, fun h => h hepoch⟩

theorem isChain_exact_iff {reports : List TickReport} (h : Continue schedule (some a) reports) :
    (a :: reports).IsChain (Exact schedule) ↔ (a :: reports).IsChain (Meets schedule) := by
  induction reports generalizing a with
  | nil => simp
  | cons b rest ih =>
    obtain ⟨-, hcovers, hrest⟩ := h
    rw [List.isChain_cons_cons, List.isChain_cons_cons, exact_iff_meets hcovers, ih hrest]

/-- The fires that an exact report shows lie between the ticks. -/
theorem Covers.between_of_exact (h : b.Covers schedule (some a)) (hexact : Exact schedule a b)
    {f : Instant} (hf : f ∈ b.fires) : a.now < f ∧ f ≤ b.now := by
  have hbetween : Between schedule a b := hexact.1 (List.ne_nil_of_mem hf)
  obtain ⟨fire, hearliest, hfires⟩ := h
  rw [hfires] at hf
  cases fire with
  | none => simp at hf
  | some first =>
    obtain rfl : f = first := by simpa using hf
    obtain ⟨-, hsince, hle⟩ := hearliest.1
    refine ⟨?_, hle⟩
    simp only [since] at hsince
    split at hsince
    · exact hsince
    · obtain ⟨g, -, hlt, hg⟩ := hbetween
      exact (hlt.trans_le hg).trans_le hsince

theorem Covers.nodup (h : r.Covers schedule last) : r.fires.Nodup := by
  obtain ⟨fire, -, hfires⟩ := h
  rw [hfires]
  cases fire <;> simp

/-- Exact reports show later fires as time goes on, and so none of them twice. -/
theorem nodup_of_isChain_exact {reports : List TickReport} (h : Continue schedule (some a) reports)
    (hexact : (a :: reports).IsChain (Exact schedule)) :
    (∀ f ∈ reports.flatMap (·.fires), a.now < f) ∧ (reports.flatMap (·.fires)).Nodup := by
  induction reports generalizing a with
  | nil => simp
  | cons b rest ih =>
    obtain ⟨htime, hcovers, hrest⟩ := h
    rw [List.isChain_cons_cons] at hexact
    obtain ⟨hlater, hnodup⟩ := ih hrest hexact.2
    rw [List.flatMap_cons]
    constructor
    · intro f hf
      rcases List.mem_append.1 hf with hf | hf
      · exact (hcovers.between_of_exact hexact.1 hf).1
      · exact (htime a rfl).trans_lt (hlater f hf)
    · refine List.nodup_append.2 ⟨hcovers.nodup, hnodup, ?_⟩
      intro f hf g hg heq
      have hle := (hcovers.between_of_exact hexact.1 hf).2
      exact absurd (heq ▸ hle) (not_le.2 (hlater g hg))

/-- Reports that cover what they look back to show each fire exactly once and at the right
tick, exactly when they meet the fires wherever the model is new. -/
theorem exact_iff {reports : List TickReport} (h : Continue schedule none reports) :
    reports.IsChain (Exact schedule) ∧ (reports.flatMap (·.fires)).Nodup ↔
      reports.IsChain (Meets schedule) := by
  cases reports with
  | nil => simp
  | cons r rest =>
    obtain ⟨-, hcovers, hrest⟩ := h
    rw [← isChain_exact_iff hrest]
    refine ⟨fun hboth => hboth.1, fun hexact => ⟨hexact, ?_⟩⟩
    obtain ⟨hlater, hnodup⟩ := nodup_of_isChain_exact hrest hexact
    rw [List.flatMap_cons]
    refine List.nodup_append.2 ⟨hcovers.nodup, hnodup, ?_⟩
    intro f hf g hg heq
    obtain ⟨fire, hearliest, hfires⟩ := hcovers
    rw [hfires] at hf
    cases fire with
    | none => simp at hf
    | some first =>
      obtain rfl : f = first := by simpa using hf
      exact absurd (heq ▸ hearliest.1.2.2) (not_le.2 (hlater g hg))

end TickReport

namespace Dispatcher

variable {s s' : Dispatcher} {j : Job} {schedule : Schedule} {last : Option TickReport}

/-- What the ticks among some events show of a job, one after the other. -/
def reports (job : String) (s : Dispatcher) : List JobEvent → Except SpanOverflow (List TickReport)
  | [] => .ok []
  | .tick now :: rest => do
    let (ticks, e) ← s.engine.tick now
    let later ← reports job { s with engine := e } rest
    return ⟨now, s.engine.model.epoch, (ticks.filter (·.job = job)).map (·.fireAt)⟩ :: later
  | event :: rest => do
    let s' ← s.step event
    reports job s' rest

/-- The times of the ticks among some events. -/
def times (events : List JobEvent) : List Instant :=
  events.filterMap fun event =>
    match event with
    | .tick now => some now
    | _ => none

theorem exists_tick_of_reports {job : String} {now : Instant} {rest : List JobEvent}
    {rs : List TickReport} (h : s.reports job (.tick now :: rest) = .ok rs) :
    ∃ ticks jobs later, s.engine.jobs.tick s.engine.model now = .ok (ticks, jobs) ∧
      reports job { s with engine := { s.engine with jobs } } rest = .ok later ∧
      rs = ⟨now, s.engine.model.epoch, (ticks.filter (·.job = job)).map (·.fireAt)⟩ :: later := by
  rw [reports, Fallible.bind_eq_ok_iff] at h
  obtain ⟨⟨ticks, e⟩, htick, h⟩ := h
  rw [Fallible.bind_eq_ok_iff] at h
  obtain ⟨later, hlater, h⟩ := h
  cases h
  obtain ⟨jobs, hjobs, rfl⟩ := tick_eq_ok htick
  exact ⟨ticks, jobs, later, hjobs, hlater, rfl⟩

section

variable {event : JobEvent} {rest : List JobEvent} (hother : ∀ now, event ≠ .tick now)
include hother

theorem exists_step_of_reports {job : String} {rs : List TickReport}
    (h : s.reports job (event :: rest) = .ok rs) :
    ∃ s', s.step event = .ok s' ∧ s'.reports job rest = .ok rs := by
  cases event with
  | tick now => exact absurd rfl (hother now)
  | _ => exact Fallible.bind_eq_ok_iff.1 h

theorem times_cons_of_ne : times (event :: rest) = times rest := by
  cases event with
  | tick now => exact absurd rfl (hother now)
  | _ => rfl

end

/-- The model in force was linked from a document with the job in it. -/
def Declares (s : Dispatcher) (j : Job) : Prop :=
  ∃ (d : Document) (epoch : Nat), d.link epoch = .ok s.engine.model ∧ j ∈ d.jobs

/-- What the board knows of a job after a report: the epoch of the model, and the next
fire. -/
def Awaits (schedule : Schedule) (last : Option TickReport) (state : Option JobState) : Prop :=
  match last with
  | none => state = none
  | some a => ∃ st, state = some st ∧ st.epoch = some a.epoch ∧
      Instant.Earliest (fun f => schedule.IsFire f ∧ a.now < f) st.nextFire

/-- No event but a tick changes what the board knows of the jobs, and the model changes only
to that of a document. -/
theorem states_of_step {event : JobEvent} (h : s.step event = .ok s')
    (hother : ∀ now, event ≠ .tick now) (hkeeps : ∀ d, event = .reload d → j ∈ d.jobs)
    (hdeclares : s.Declares j) :
    s'.engine.jobs.states = s.engine.jobs.states ∧ s'.Declares j := by
  cases becomes_of_step h with
  | refused d => exact ⟨rfl, hdeclares⟩
  | loaded d m hcandidate => exact ⟨rfl, d, _, hcandidate, hkeeps d rfl⟩
  | ticked now ticks jobs hjobs => exact absurd rfl (hother now)
  | skipped t => exact ⟨rfl, hdeclares⟩
  | started t mark hdispatch hmark hfree => exact ⟨rfl, hdeclares⟩
  | finished mark => exact ⟨rfl, hdeclares⟩

/-- Before a tick the board goes on from the report before, or it looks the next fire up:
it waits for the fires that the tick's report looks back to. -/
theorem earliest_of_awaits (hs : schedule.WellFormed) (hordinary : schedule.IsOrdinary)
    {r : TickReport} (hnow : r.now.OnClock) {known : Option JobState}
    (hawaits : Awaits schedule last known)
    {s₀ s₁ : JobState} (hknown : ∀ s, known = some s → s₀ = s)
    (hunknown : known = none → s₀.epoch = none)
    (h : JobBoard.scheduled s₀ schedule r.epoch r.now = .ok s₁) :
    s₁.epoch = some r.epoch ∧
      Instant.Earliest (fun f => schedule.IsFire f ∧ r.since last f) s₁.nextFire := by
  have hnew : s₀.epoch ≠ some r.epoch →
      s₁.epoch = some r.epoch ∧
        Instant.Earliest (fun f => schedule.IsFire f ∧ r.now ≤ f) s₁.nextFire := fun hne =>
    JobBoard.earliest_of_scheduled hs (Schedule.onClock_of_noLeap hordinary.noLeap)
      (hordinary.recurs hs) hnow hne h
  cases last with
  | none =>
    refine hnew ?_
    rw [hunknown hawaits]
    exact nofun
  | some a =>
    obtain ⟨st, hst, hepoch, hnext⟩ := hawaits
    obtain rfl := hknown st hst
    by_cases hsame : a.epoch = r.epoch
    · rw [hsame] at hepoch
      rw [JobBoard.scheduled, if_pos hepoch] at h
      cases h
      simp only [TickReport.since, hsame, if_true]
      exact ⟨hepoch, hnext⟩
    · simp only [TickReport.since, hsame, if_false]
      refine hnew ?_
      rw [hepoch]
      exact fun heq => hsame (Option.some.inj heq)

/-- What a tick does for an enabled job. -/
theorem exists_due_of_tick (hdeclares : s.Declares j) (henabled : j.enabled = true)
    (hschedule : Schedule.ofJob j = .ok schedule) {now : Instant} {ticks : List JobTick}
    {jobs : JobBoard} (h : s.engine.jobs.tick s.engine.model now = .ok (ticks, jobs)) :
    ∃ s₀ s₁ fire s₂, (∀ st, s.engine.jobs.states.get? j.name = some st → s₀ = st) ∧
      (s.engine.jobs.states.get? j.name = none → s₀.epoch = none) ∧
      JobBoard.scheduled s₀ schedule s.engine.model.epoch now = .ok s₁ ∧
      JobBoard.due s₁ schedule now = .ok (fire, s₂) ∧ jobs.states.get? j.name = some s₂ ∧
      (ticks.filter (·.job = j.name)).map (·.fireAt) = fire.toList := by
  obtain ⟨d, epoch, hlink, hj⟩ := hdeclares
  have hnames := (Document.jobFaults_of_link hlink).1
  have hdocument : s.engine.model.document = d := by
    rw [← (Document.link_eq_ok_iff.1 hlink).2]
    rfl
  rw [← hdocument] at hj hnames
  obtain ⟨schedule', hofJob, hfound⟩ := Document.schedule?_of_mem hlink hj
  rw [hschedule] at hofJob
  cases hofJob
  have hmem : j ∈ JobBoard.enabled s.engine.model := List.mem_filter.2 ⟨hj, henabled⟩
  obtain ⟨s₀, s₁, fire, s₂, hknown, hunknown, hrest⟩ :=
    JobBoard.exists_due_of_tickJobs (hnames.sublist (List.filter_sublist.map _)) hmem hfound h
  rw [JobBoard.get?_retain_of_enables ⟨j, hmem, rfl⟩] at hknown hunknown
  exact ⟨s₀, s₁, fire, s₂, hknown, hunknown, hrest⟩

/-- How ticks show a job of which the board knew something before them.  Each of them looks the
next fire up if its model is new and reports the job if it is due, and the next tick goes on
from what the board knows then. -/
inductive Shows (schedule : Schedule) : Option JobState → List TickReport → Prop
  | nil (known : Option JobState) : Shows schedule known []
  | cons {known : Option JobState} {s₀ s₁ s₂ : JobState} {now : Instant} {epoch : Nat}
      {fire : Option Instant} {rest : List TickReport}
      (hknown : ∀ st, known = some st → s₀ = st) (hunknown : known = none → s₀.epoch = none)
      (hscheduled : JobBoard.scheduled s₀ schedule epoch now = .ok s₁)
      (hdue : JobBoard.due s₁ schedule now = .ok (fire, s₂))
      (hrest : Shows schedule (some s₂) rest) :
      Shows schedule known (⟨now, epoch, fire.toList⟩ :: rest)

/-- The ticks of a history show an enabled job that all its models declare. -/
theorem shows_of_reports (henabled : j.enabled = true)
    (hschedule : Schedule.ofJob j = .ok schedule) {events : List JobEvent}
    (hkeeps : ∀ d, .reload d ∈ events → j ∈ d.jobs) (hdeclares : s.Declares j)
    {rs : List TickReport} (h : s.reports j.name events = .ok rs) :
    Shows schedule (s.engine.jobs.states.get? j.name) rs ∧ rs.map (·.now) = times events := by
  induction events generalizing s rs with
  | nil =>
    cases h
    exact ⟨.nil _, rfl⟩
  | cons event rest ih =>
    have hkeeps' : ∀ d, .reload d ∈ rest → j ∈ d.jobs := fun d hd =>
      hkeeps d (List.mem_cons_of_mem _ hd)
    by_cases htick : ∃ now, event = .tick now
    · obtain ⟨now, rfl⟩ := htick
      obtain ⟨ticks, jobs, later, hjobs, hlater, rfl⟩ := exists_tick_of_reports h
      obtain ⟨s₀, s₁, fire, s₂, hknown, hunknown, hscheduled, hdue, hkept, hshown⟩ :=
        exists_due_of_tick hdeclares henabled hschedule hjobs
      obtain ⟨hrest, htimes⟩ :=
        ih (s := { s with engine := { s.engine with jobs } }) hkeeps' hdeclares hlater
      rw [show _ = some s₂ from hkept] at hrest
      rw [hshown]
      exact ⟨.cons hknown hunknown hscheduled hdue hrest, congrArg (now :: ·) htimes⟩
    · have hother : ∀ now, event ≠ .tick now := fun now heq => htick ⟨now, heq⟩
      obtain ⟨s', hstep, hlater⟩ := exists_step_of_reports hother h
      obtain ⟨hstates, hdeclares'⟩ := states_of_step hstep hother
        (fun d hd => hkeeps d (hd ▸ List.mem_cons_self)) hdeclares
      rw [times_cons_of_ne hother, ← hstates]
      exact ih hkeeps' hdeclares' hlater

/-- Ticks report what they look back to, one after the other. -/
theorem Shows.continues (hs : schedule.WellFormed) (hordinary : schedule.IsOrdinary)
    {known : Option JobState} {rs : List TickReport} (h : Shows schedule known rs)
    (hclock : ∀ r ∈ rs, r.now.OnClock) (hsorted : (rs.map (·.now)).Pairwise (· ≤ ·))
    (htime : ∀ a ∈ last, ∀ r ∈ rs, a.now ≤ r.now) (hawaits : Awaits schedule last known) :
    TickReport.Continue schedule last rs := by
  induction h generalizing last with
  | nil known => trivial
  | @cons known s₀ s₁ s₂ now epoch fire rest hknown hunknown hscheduled hdue hrest ih =>
    obtain ⟨hfirst, hsorted⟩ := List.pairwise_cons.1 hsorted
    have hlast : ∀ a ∈ last, a.now ≤ now := fun a ha => htime a ha _ List.mem_cons_self
    obtain ⟨hepoch₁, hnext₁⟩ := earliest_of_awaits (r := ⟨now, epoch, fire.toList⟩) hs hordinary
      (hclock _ List.mem_cons_self) hawaits hknown hunknown hscheduled
    obtain ⟨hepoch₂, hreported, hnext₂⟩ := JobBoard.earliest_of_due hs hordinary
      (fun f => TickReport.since_of_lt hlast) hnext₁ hdue
    refine ⟨hlast, ⟨fire, hreported, rfl⟩, ?_⟩
    refine ih (fun r hr => hclock r (List.mem_cons_of_mem _ hr)) hsorted ?_
      ⟨s₂, rfl, hepoch₂.trans hepoch₁, hnext₂⟩
    rintro a ⟨⟩ r hr
    exact hfirst r.now (List.mem_map_of_mem hr)

/-- The ticks of a history report what they look back to, one after the other. -/
theorem continues_of_reports (henabled : j.enabled = true)
    (hschedule : Schedule.ofJob j = .ok schedule) (hordinary : schedule.IsOrdinary)
    {events : List JobEvent} (hkeeps : ∀ d, .reload d ∈ events → j ∈ d.jobs)
    (hclock : ∀ now ∈ times events, now.OnClock) (hsorted : (times events).Pairwise (· ≤ ·))
    (htime : ∀ a ∈ last, ∀ now ∈ times events, a.now ≤ now) (hdeclares : s.Declares j)
    (hawaits : Awaits schedule last (s.engine.jobs.states.get? j.name)) {rs : List TickReport}
    (h : s.reports j.name events = .ok rs) : TickReport.Continue schedule last rs := by
  obtain ⟨hshows, htimes⟩ := shows_of_reports henabled hschedule hkeeps hdeclares h
  rw [← htimes] at hclock hsorted htime
  simp only [List.forall_mem_map] at hclock htime
  exact hshows.continues (Schedule.wellFormed_of_ofJob hschedule) hordinary hclock hsorted htime
    hawaits

/-- Ticks at times that do not go back, and reloads that leave an enabled job as it is: each
tick but the first shows the job exactly when the job has a fire after the tick before and not
after this one, and no fire is shown twice, exactly when every tick that meets a new model
comes at a fire if and only if such a fire lies between.  The schedule starts outside leap
seconds and lists no year far off. -/
theorem reports_exact_iff {d : Document} {runner : Runner} {ids : SnowflakeSource} {capacity : Nat}
    {e : Engine} (he : Engine.ofDocument d runner ids capacity = .ok e) (hj : j ∈ d.jobs)
    (henabled : j.enabled = true) (hschedule : Schedule.ofJob j = .ok schedule)
    (hordinary : schedule.IsOrdinary) {events : List JobEvent}
    (hkeeps : ∀ d', .reload d' ∈ events → j ∈ d'.jobs)
    (hclock : ∀ now ∈ times events, now.OnClock) (hsorted : (times events).Pairwise (· ≤ ·))
    {rs : List TickReport} (hreports : (idle e).reports j.name events = .ok rs) :
    rs.IsChain (TickReport.Exact schedule) ∧ (rs.flatMap (·.fires)).Nodup ↔
      rs.IsChain (TickReport.Meets schedule) := by
  rw [Engine.ofDocument, Fallible.bind_eq_ok_iff] at he
  obtain ⟨snapshots, hsnapshots, he⟩ := he
  cases he
  rw [Snapshots.ofDocument, Fallible.map_eq_ok_iff] at hsnapshots
  obtain ⟨m, hm, rfl⟩ := hsnapshots
  refine TickReport.exact_iff (continues_of_reports henabled hschedule hordinary hkeeps hclock
    hsorted (by simp) ?_ ?_ hreports)
  · exact ⟨d, 0, hm, hj⟩
  · rfl

/-! ### A job that is reloaded as it is -/

/-- The schedule of the job that fires every hour. -/
def hours : Schedule := ⟨minutes 0, none, .hour, .every 1, true⟩

theorem exists_of_isFire_hours {f : Instant} (h : hours.IsFire f) : ∃ k, f = minutes (60 * k) := by
  obtain ⟨k, hcandidate⟩ := h.1.candidate
  refine ⟨k, ?_⟩
  rw [Schedule.candidate_eq rfl hcandidate]
  simp only [hours, minutes, Schedule.secondAt, IntervalUnit.fixedSeconds?, Frequency.multiple,
    Instant.mk.injEq, and_true]
  omega

/-- The same document is loaded again between two ticks. -/
def reloadBetween (before after : Nat) : List JobEvent :=
  [.tick (minutes before), .reload (sweeping true), .tick (minutes after)]

/-- Where no fire is near, nothing is lost. -/
theorem reports_exact_of_reloadBetween :
    (idle sweeper).reports "sweep" (reloadBetween 30 40) =
        .ok [⟨minutes 30, 0, []⟩, ⟨minutes 40, 1, []⟩] ∧
      [⟨minutes 30, 0, []⟩, ⟨minutes 40, 1, []⟩].IsChain (TickReport.Exact hours) := by
  have hreports : (idle sweeper).reports "sweep" (reloadBetween 30 40) =
      .ok [⟨minutes 30, 0, []⟩, ⟨minutes 40, 1, []⟩] := by rfl
  have hnone : ∀ f, hours.IsFire f → minutes 30 < f → ¬ f ≤ minutes 40 := by
    intro f hf hlow hhigh
    obtain ⟨k, rfl⟩ := exists_of_isFire_hours hf
    rw [Instant.lt_iff] at hlow
    rw [Instant.le_iff] at hhigh
    simp only [minutes] at hlow hhigh
    omega
  have hmeets : TickReport.Meets hours ⟨minutes 30, 0, []⟩ ⟨minutes 40, 1, []⟩ := by
    refine fun _ => ⟨fun h => absurd le_rfl (hnone _ h (by decide)), ?_⟩
    rintro ⟨f, hf, hlow, hhigh⟩
    exact absurd hhigh (hnone f hf hlow)
  have hloaded :
      Engine.ofDocument (sweeping true) (.standard .builtinOnly) default 8 = .ok sweeper := rfl
  have hkeeps : ∀ d, .reload d ∈ reloadBetween 30 40 → Job.hourly true ∈ d.jobs := by
    intro d hd
    obtain rfl : d = sweeping true := by simpa [reloadBetween] using hd
    exact List.mem_cons_self
  have hclock : ∀ now ∈ times (reloadBetween 30 40), now.OnClock := by decide
  refine ⟨hreports, ((reports_exact_iff hloaded List.mem_cons_self rfl rfl ⟨rfl, nofun⟩ hkeeps
    hclock (by decide) hreports).2 ?_).1⟩
  exact List.isChain_cons_cons.2 ⟨hmeets, List.IsChain.singleton _⟩

/-- A fire between the ticks is lost, and one that both ticks come at is shown twice. -/
theorem not_exact_of_reloadBetween :
    Engine.ofDocument (sweeping true) (.standard .builtinOnly) default 8 = .ok sweeper ∧
      Schedule.ofJob (.hourly true) = .ok hours ∧
      (idle sweeper).reports "sweep" (reloadBetween 30 90) =
        .ok [⟨minutes 30, 0, []⟩, ⟨minutes 90, 1, []⟩] ∧
      ¬ [⟨minutes 30, 0, []⟩, ⟨minutes 90, 1, []⟩].IsChain (TickReport.Exact hours) ∧
      (idle sweeper).reports "sweep" (reloadBetween 60 60) =
        .ok [⟨minutes 60, 0, [minutes 60]⟩, ⟨minutes 60, 1, [minutes 60]⟩] := by
  refine ⟨rfl, rfl, rfl, ?_, rfl⟩
  intro hexact
  have hfire : hours.IsFire (minutes 60) := ⟨⟨⟨1, rfl⟩, by decide, rfl, rfl⟩, nofun⟩
  exact (List.isChain_cons_cons.1 hexact).1.2 ⟨minutes 60, hfire, by decide, by decide⟩ rfl

end Dispatcher

end PipelineEngine
