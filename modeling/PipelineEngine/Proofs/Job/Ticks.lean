import PipelineEngine.Proofs.Job.Reports
import PipelineEngine.Proofs.Schedule.Enumeration

/-!
# Ticks under one model

While the model stays the same, a tick goes on from where the one before left the board: it
reports the first fire that has come since then, and several that have come count as one.  The
fire that the board waits for after a report is looked up from the nanosecond after the tick.
Only in a leap second is there room for a fire before that, and such a fire is passed over.

* `Dispatcher.Follows`: the reports of a board that waits for the fires with some property.
  What the ticks show and leave out is read off it by induction.
* `Follows.shown_fires`: no fire is shown twice, and none before it comes.
* `Follows.continue_iff`: no fire is left out unless it is passed over.
* `Dispatcher.reports_continue_iff` says both of the ticks of an engine.
-/

namespace PipelineEngine

/-- There is room for one fire within a nanosecond. -/
theorem Schedule.IsFire.eq_of_between {s : Schedule} {t f g : Instant} (hs : s.WellFormed)
    (hclock : s.start.OnClock) (ht : t.OnClock) (hf : s.IsFire f) (hg : s.IsFire g)
    (hft : t < f ∧ f < t.next) (hgt : t < g ∧ g < t.next) : f = g := by
  obtain ⟨-, hsecond, -⟩ := (Instant.between_next_iff ht (hf.onClock hclock)).1 hft
  obtain ⟨-, hsecond', -⟩ := (Instant.between_next_iff ht (hg.onClock hclock)).1 hgt
  exact hf.eq_of_seconds hs hg (hsecond.trans hsecond'.symm)

namespace TickReport

/-- The later tick does not come to a fire that the board passed over at the earlier one: a fire
within the nanosecond after a tick that showed the job. -/
def Spares (schedule : Schedule) (a b : TickReport) : Prop :=
  a.fires ≠ [] → ∀ g, schedule.IsFire g → a.now < g → g < a.now.next → b.now < g

variable {schedule : Schedule} {last : Option TickReport} {a b r : TickReport}

/-- Under the same model a report looks back to the fires after the one before it. -/
theorem since_some (h : a.epoch = r.epoch) {f : Instant} :
    r.since (some a) f ↔ a.now < f := by
  simp only [since, h, if_true]

theorem continue_cons_iff (htime : ∀ a ∈ last, a.now ≤ r.now) (hcovers : r.Covers schedule last)
    {rest : List TickReport} :
    Continue schedule last (r :: rest) ↔ Continue schedule (some r) rest :=
  ⟨fun h => h.2.2, fun h => ⟨htime, hcovers, h⟩⟩

/-- Nothing is passed over at a tick that shows nothing. -/
theorem spares_of_fires_eq_nil (h : a.fires = []) : Spares schedule a b :=
  fun hshown => absurd h hshown

/-- Nothing is passed over where no fire lies within the nanosecond. -/
theorem spares_of_none (h : ¬ ∃ g, schedule.IsFire g ∧ a.now < g ∧ g < a.now.next) :
    Spares schedule a b :=
  fun _ g hg hlt hgt => absurd ⟨g, hg, hlt, hgt⟩ h

/-- The one fire that is passed over is spared until its own time. -/
theorem spares_iff_lt (hs : schedule.WellFormed) (hclock : schedule.start.OnClock)
    (ha : a.now.OnClock) (hshown : a.fires ≠ []) {g : Instant} (hg : schedule.IsFire g)
    (hbetween : a.now < g ∧ g < a.now.next) : Spares schedule a b ↔ b.now < g := by
  refine ⟨fun h => h hshown g hg hbetween.1 hbetween.2, ?_⟩
  intro h _ g' hg' hlt hgt
  exact hg.eq_of_between hs hclock ha hg' hbetween ⟨hlt, hgt⟩ ▸ h

end TickReport

namespace Dispatcher

variable {s : Dispatcher} {j : Job} {schedule : Schedule} {since : Instant → Prop}
variable {rs : List TickReport} {epoch : Nat}

/-- Reports of a board that waits for the fires with a property.  Where none of them has come a
tick shows nothing and the board waits on; where some have come it shows the first, and the
board waits for those from the nanosecond after the tick on. -/
inductive Follows (schedule : Schedule) : (Instant → Prop) → List TickReport → Prop
  | nil (since : Instant → Prop) : Follows schedule since []
  | quiet {since : Instant → Prop} {now : Instant} {epoch : Nat} {rest : List TickReport}
      (hnone : ∀ f, schedule.IsFire f → since f → ¬ f ≤ now)
      (hrest : Follows schedule since rest) : Follows schedule since (⟨now, epoch, []⟩ :: rest)
  | shown {since : Instant → Prop} {now first : Instant} {epoch : Nat} {rest : List TickReport}
      (hfirst : Instant.Earliest (fun f => schedule.IsFire f ∧ since f ∧ f ≤ now) (some first))
      (hrest : Follows schedule (now.next ≤ ·) rest) :
      Follows schedule since (⟨now, epoch, [first]⟩ :: rest)

/-! ## What is shown -/

/-- Each tick shows one fire at most, and one that has come.  The fires that are shown go up. -/
theorem Follows.shown_fires (h : Follows schedule since rs)
    (hup : ∀ f g, since f → f ≤ g → since g) :
    (∀ r ∈ rs, r.fires.length ≤ 1 ∧ ∀ f ∈ r.fires, schedule.IsFire f ∧ f ≤ r.now) ∧
      (∀ f ∈ rs.flatMap (·.fires), since f) ∧ (rs.flatMap (·.fires)).Pairwise (· < ·) := by
  induction h with
  | nil since => simp
  | quiet hnone hrest ih =>
    obtain ⟨hall, hsince, hsorted⟩ := ih hup
    refine ⟨List.forall_mem_cons.2 ⟨by simp, hall⟩, ?_, ?_⟩
    · simpa using hsince
    · simpa using hsorted
  | @shown since now first epoch rest hfirst hrest ih =>
    obtain ⟨⟨hfire, hf, hle⟩, -⟩ := hfirst
    obtain ⟨hall, hsince, hsorted⟩ := ih fun f g hf hle => hf.trans hle
    have hlater : ∀ g ∈ rest.flatMap (·.fires), first < g := fun g hg =>
      (hle.trans_lt now.lt_next).trans_le (hsince g hg)
    refine ⟨List.forall_mem_cons.2 ⟨by simp [hfire, hle], hall⟩, ?_, ?_⟩
    · rw [List.flatMap_cons, List.singleton_append, List.forall_mem_cons]
      exact ⟨hf, fun g hg => hup first g hf (hlater g hg).le⟩
    · rw [List.flatMap_cons, List.singleton_append]
      exact List.pairwise_cons.2 ⟨hlater, hsorted⟩

/-! ## What is left out -/

section
variable (hs : schedule.WellFormed) (hclock : schedule.start.OnClock)
include hs hclock

/-- A board that has passed over a fire never shows it, so what it reports is right until a tick
comes to the fire, and shows nothing until then. -/
theorem Follows.continue_iff_of_passed {t g : Instant} (ht : t.OnClock) (hg : schedule.IsFire g)
    (hpassed : t < g ∧ g < t.next) (h : Follows schedule since rs) (hsince : since = (t.next ≤ ·))
    {a : TickReport} (hta : t ≤ a.now) (hag : a.now < g)
    (hepochs : ∀ r ∈ a :: rs, r.epoch = epoch)
    (hsorted : ((a :: rs).map (·.now)).Pairwise (· ≤ ·)) :
    (TickReport.Continue schedule (some a) rs ↔ ∀ b ∈ rs, b.now < g) ∧
      ((∀ b ∈ rs, b.now < g) → rs.Pairwise (TickReport.Spares schedule)) := by
  induction h generalizing a with
  | nil since => simp [TickReport.Continue]
  | @quiet since now epoch' rest hnone hrest ih =>
    obtain ⟨hfirst, hsorted⟩ := List.pairwise_cons.1 hsorted
    have hle : a.now ≤ now := hfirst now List.mem_cons_self
    obtain ⟨hepoch, hepochs⟩ := List.forall_mem_cons.1 hepochs
    have hsame : a.epoch = epoch' := hepoch.trans (hepochs _ List.mem_cons_self).symm
    by_cases hnow : now < g
    · obtain ⟨hcontinue, hspares⟩ :=
        ih hsince (a := ⟨now, epoch', []⟩) (hta.trans hle) hnow hepochs hsorted
      have hcovers : TickReport.Covers schedule (some a) ⟨now, epoch', []⟩ := by
        refine ⟨none, ?_, rfl⟩
        rintro f ⟨hf, hlate, hfnow⟩
        rw [TickReport.since_some hsame] at hlate
        have hfg : f < g := hfnow.trans_lt hnow
        have heq : f = g := hf.eq_of_between hs hclock ht hg
          ⟨hta.trans_lt hlate, hfg.trans hpassed.2⟩ hpassed
        exact absurd heq hfg.ne
      have htime : ∀ a' ∈ some a, a'.now ≤ now := by
        rintro a' ⟨⟩
        exact hle
      rw [List.forall_mem_cons, TickReport.continue_cons_iff htime hcovers, hcontinue,
        List.pairwise_cons]
      refine ⟨(and_iff_right hnow).symm, fun hall => ⟨?_, hspares hall.2⟩⟩
      exact fun b _ => TickReport.spares_of_fires_eq_nil rfl
    · have hfalse : ¬ ∀ b ∈ (⟨now, epoch', []⟩ : TickReport) :: rest, b.now < g := fun hall =>
        hnow (hall _ List.mem_cons_self)
      refine ⟨iff_of_false ?_ hfalse, fun hall => absurd hall hfalse⟩
      rintro ⟨-, hcovers, -⟩
      exact hcovers.fires_ne_nil_iff.2
        ⟨g, hg, (TickReport.since_some hsame).2 hag, not_lt.1 hnow⟩ rfl
  | @shown since now first epoch' rest hfirst hrest ih =>
    subst hsince
    obtain ⟨hepoch, hepochs⟩ := List.forall_mem_cons.1 hepochs
    have hsame : a.epoch = epoch' := hepoch.trans (hepochs _ List.mem_cons_self).symm
    obtain ⟨⟨-, hlate, hcome⟩, -⟩ := hfirst
    have hgfirst : g < first := hpassed.2.trans_le hlate
    have hfalse : ¬ ∀ b ∈ (⟨now, epoch', [first]⟩ : TickReport) :: rest, b.now < g := fun hall =>
      absurd ((hall _ List.mem_cons_self).trans hgfirst) (not_lt.2 hcome)
    refine ⟨iff_of_false ?_ hfalse, fun hall => absurd hall hfalse⟩
    rintro ⟨-, ⟨fire, hearliest, hfires⟩, -⟩
    cases fire with
    | none => cases hfires
    | some f =>
      obtain rfl : first = f := by simpa using hfires
      refine absurd (hearliest.2 g ⟨hg, (TickReport.since_some hsame).2 hag, ?_⟩) (not_le.2 hgfirst)
      exact hgfirst.le.trans hcome

/-- The reports leave no fire out exactly when no tick comes to a fire that was passed over. -/
theorem Follows.continue_iff {last : Option TickReport} (h : Follows schedule since rs)
    (hnow : ∀ r ∈ rs, r.now.OnClock) (hsorted : (rs.map (·.now)).Pairwise (· ≤ ·))
    (htime : ∀ a ∈ last, ∀ r ∈ rs, a.now ≤ r.now) (hepochs : ∀ r ∈ rs, r.epoch = epoch)
    (hsince : ∀ r ∈ rs.head?, ∀ f, schedule.IsFire f → (since f ↔ r.since last f)) :
    TickReport.Continue schedule last rs ↔ rs.Pairwise (TickReport.Spares schedule) := by
  induction h generalizing last with
  | nil since => simp [TickReport.Continue]
  | @quiet since now epoch' rest hnone hrest ih =>
    replace hsince := hsince _ rfl
    have hlast : ∀ a ∈ last, a.now ≤ now := fun a ha => htime a ha _ List.mem_cons_self
    obtain ⟨hfirst, hsorted⟩ := List.pairwise_cons.1 hsorted
    obtain ⟨hepoch, hepochs'⟩ := List.forall_mem_cons.1 hepochs
    have hcovers : TickReport.Covers schedule last ⟨now, epoch', []⟩ :=
      ⟨none, fun f hf => hnone f hf.1 ((hsince f hf.1).2 hf.2.1) hf.2.2, rfl⟩
    have hcontinue : TickReport.Continue schedule (some ⟨now, epoch', []⟩) rest ↔
        rest.Pairwise (TickReport.Spares schedule) := by
      refine ih (List.forall_mem_cons.1 hnow).2 hsorted ?_ hepochs' ?_
      · rintro a ⟨⟩ r hr
        exact hfirst r.now (List.mem_map_of_mem hr)
      · intro r hr f hf
        have hsame : epoch' = r.epoch := hepoch.trans (hepochs' r (List.mem_of_mem_head? hr)).symm
        rw [TickReport.since_some hsame]
        constructor
        · exact fun hlate => not_le.1 (hnone f hf hlate)
        · exact fun hlt => (hsince f hf).2 (TickReport.since_of_lt hlast hlt)
    rw [TickReport.continue_cons_iff hlast hcovers, hcontinue, List.pairwise_cons]
    exact (and_iff_right fun b _ => TickReport.spares_of_fires_eq_nil rfl).symm
  | @shown since now first epoch' rest hearliest hrest ih =>
    replace hsince := hsince _ rfl
    have hlast : ∀ a ∈ last, a.now ≤ now := fun a ha => htime a ha _ List.mem_cons_self
    obtain ⟨hfirst, hsorted'⟩ := List.pairwise_cons.1 hsorted
    obtain ⟨hepoch, hepochs'⟩ := List.forall_mem_cons.1 hepochs
    obtain ⟨hclockNow, hnow⟩ := List.forall_mem_cons.1 hnow
    have hcovers : TickReport.Covers schedule last ⟨now, epoch', [first]⟩ := by
      refine ⟨some first, hearliest.congr fun f => ?_, rfl⟩
      exact and_congr_right fun hf => and_congr_left' (hsince f hf)
    rw [TickReport.continue_cons_iff hlast hcovers, List.pairwise_cons]
    by_cases hpassed : ∃ g, schedule.IsFire g ∧ now < g ∧ g < now.next
    · obtain ⟨g, hg, hbetween⟩ := hpassed
      obtain ⟨hcontinue, hspares⟩ := hrest.continue_iff_of_passed hs hclock hclockNow hg hbetween
        rfl (a := ⟨now, epoch', [first]⟩) le_rfl hbetween.1 hepochs hsorted
      have hspared : (∀ b ∈ rest, TickReport.Spares schedule ⟨now, epoch', [first]⟩ b) ↔
          ∀ b ∈ rest, b.now < g :=
        forall₂_congr fun b _ => TickReport.spares_iff_lt hs hclock hclockNow nofun hg hbetween
      rw [hcontinue, hspared]
      exact ⟨fun hall => ⟨hall, hspares hall⟩, fun hall => hall.1⟩
    · have hcontinue : TickReport.Continue schedule (some ⟨now, epoch', [first]⟩) rest ↔
          rest.Pairwise (TickReport.Spares schedule) := by
        refine ih hnow hsorted' ?_ hepochs' ?_
        · rintro a ⟨⟩ r hr
          exact hfirst r.now (List.mem_map_of_mem hr)
        · intro r hr f hf
          have hsame : epoch' = r.epoch :=
            hepoch.trans (hepochs' r (List.mem_of_mem_head? hr)).symm
          rw [TickReport.since_some hsame]
          refine ⟨now.lt_next.trans_le, fun hlt => not_lt.1 fun hgt => ?_⟩
          exact hpassed ⟨f, hf, hlt, hgt⟩
      rw [hcontinue]
      exact (and_iff_right fun b _ => TickReport.spares_of_none hpassed).symm

/-! ## The ticks of an engine -/

variable (hrecurs : schedule.Recurs)
include hrecurs

/-- A tick at which the board waits for some fires, and those after it. -/
theorem follows_of_due {s₁ s₂ : JobState} {now : Instant} {fire : Option Instant} {epoch' : Nat}
    (hepoch : s₁.epoch = some epoch)
    (hnext : Instant.Earliest (fun f => schedule.IsFire f ∧ since f) s₁.nextFire)
    (hdue : JobBoard.due s₁ schedule now = .ok (fire, s₂))
    (hrest : ∀ since', s₂.epoch = some epoch →
      Instant.Earliest (fun f => schedule.IsFire f ∧ since' f) s₂.nextFire →
        Follows schedule since' rs) :
    Follows schedule since (⟨now, epoch', fire.toList⟩ :: rs) := by
  obtain ⟨hshown, hsame, ⟨rfl, hkept⟩ | ⟨hsome, hafter⟩⟩ := JobBoard.shown_of_due hnext hdue
  · refine .quiet (fun f hf hlate hle => hshown f ⟨hf, hlate, hle⟩) ?_
    exact hrest since (hsame.trans hepoch) (hkept ▸ hnext)
  · obtain ⟨first, rfl⟩ := Option.ne_none_iff_exists'.1 hsome
    refine .shown hshown (hrest _ (hsame.trans hepoch) ?_)
    exact Schedule.earliest_of_fireAtOrAfter hs hclock (Instant.onClock_next now)
      (fun _ => hrecurs) hafter

/-- Ticks after others under the same model. -/
theorem Shows.follows {known : Option JobState} (h : Shows schedule known rs)
    (hepochs : ∀ r ∈ rs, r.epoch = epoch) {st : JobState} (hknown : known = some st)
    (hepoch : st.epoch = some epoch)
    (hnext : Instant.Earliest (fun f => schedule.IsFire f ∧ since f) st.nextFire) :
    Follows schedule since rs := by
  induction h generalizing st since with
  | nil known => exact .nil since
  | cons hfrom hunknown hscheduled hdue hrest ih =>
    obtain ⟨rfl, hepochs⟩ := List.forall_mem_cons.1 hepochs
    obtain rfl := hfrom st hknown
    rw [JobBoard.scheduled, if_pos hepoch] at hscheduled
    cases hscheduled
    exact follows_of_due hs hclock hrecurs hepoch hnext hdue fun since' =>
      ih hepochs rfl

/-- The ticks of a board that did not know the job. -/
theorem Shows.follows_of_unknown {r : TickReport} (h : Shows schedule none (r :: rs))
    (hnow : r.now.OnClock) (hepochs : ∀ a ∈ rs, a.epoch = r.epoch) :
    Follows schedule (r.now ≤ ·) (r :: rs) := by
  cases h with
  | cons hfrom hunknown hscheduled hdue hrest =>
    have hnew := hunknown rfl
    obtain ⟨hepoch, hnext⟩ := JobBoard.earliest_of_scheduled hs hclock hrecurs hnow
      (by rw [hnew]; exact nofun) hscheduled
    exact follows_of_due hs hclock hrecurs hepoch hnext hdue fun since' =>
      hrest.follows hs hclock hrecurs hepochs rfl

end

/-- Without reloads every tick meets the same model. -/
theorem epoch_of_reports {job : String} {events : List JobEvent}
    (hfixed : ∀ d, .reload d ∉ events) (h : s.reports job events = .ok rs) :
    ∀ r ∈ rs, r.epoch = s.engine.model.epoch := by
  induction events generalizing s rs with
  | nil =>
    cases h
    exact nofun
  | cons event rest ih =>
    have hfixed' : ∀ d, .reload d ∉ rest := fun d hd => hfixed d (List.mem_cons_of_mem _ hd)
    by_cases htick : ∃ now, event = .tick now
    · obtain ⟨now, rfl⟩ := htick
      obtain ⟨ticks, jobs, later, -, hlater, rfl⟩ := exists_tick_of_reports h
      exact List.forall_mem_cons.2
        ⟨rfl, ih (s := { s with engine := { s.engine with jobs } }) hfixed' hlater⟩
    · obtain ⟨s', hstep, hlater⟩ :=
        exists_step_of_reports (fun now heq => htick ⟨now, heq⟩) h
      have hmodel : s'.engine.model = s.engine.model := by
        cases becomes_of_step hstep with
        | loaded d m hcandidate => exact absurd List.mem_cons_self (hfixed d)
        | _ => rfl
      rw [← hmodel]
      exact ih hfixed' hlater

/-- Ticks at times that do not go back, under one model, of an enabled job that is new to the
board and lists no years.  Each tick shows one fire at most and one that has come, and the fires
that are shown go up.  Each shows the first of the fires since the tick before it, and the first
one a fire at its own time, exactly when no tick comes to a fire that was passed over: one
within the nanosecond after a tick that showed the job. -/
theorem reports_continue_iff (hdeclares : s.Declares j)
    (hnew : s.engine.jobs.states.get? j.name = none) (henabled : j.enabled = true)
    (hschedule : Schedule.ofJob j = .ok schedule) (hyears : ¬ schedule.ListsYears)
    {events : List JobEvent} (hfixed : ∀ d, .reload d ∉ events)
    (hclock : ∀ now ∈ times events, now.OnClock) (hsorted : (times events).Pairwise (· ≤ ·))
    (hreports : s.reports j.name events = .ok rs) :
    rs.map (·.now) = times events ∧ (∀ r ∈ rs, r.epoch = s.engine.model.epoch) ∧
      (∀ r ∈ rs, r.fires.length ≤ 1 ∧ ∀ f ∈ r.fires, schedule.IsFire f ∧ f ≤ r.now) ∧
      (rs.flatMap (·.fires)).Pairwise (· < ·) ∧
      (TickReport.Continue schedule none rs ↔ rs.Pairwise (TickReport.Spares schedule)) := by
  have hs := Schedule.wellFormed_of_ofJob hschedule
  have hstart := Schedule.onClock_of_ofJob hschedule
  have hepochs := epoch_of_reports hfixed hreports
  obtain ⟨hshows, htimes⟩ := shows_of_reports henabled hschedule
    (fun d hd => absurd hd (hfixed d)) hdeclares hreports
  rw [hnew] at hshows
  refine ⟨htimes, hepochs, ?_⟩
  rw [← htimes] at hclock hsorted
  simp only [List.forall_mem_map] at hclock
  cases rs with
  | nil => simp [TickReport.Continue]
  | cons r rest =>
    obtain ⟨hepoch, hepochs'⟩ := List.forall_mem_cons.1 hepochs
    have hrecurs := Schedule.recurs_of_not_listsYears hs hyears
    have hfollows := hshows.follows_of_unknown hs hstart hrecurs
      (hclock r List.mem_cons_self) fun a ha => (hepochs' a ha).trans hepoch.symm
    obtain ⟨hall, -, hup⟩ := hfollows.shown_fires fun f g => le_trans
    refine ⟨hall, hup, hfollows.continue_iff hs hstart hclock hsorted (by simp) hepochs ?_⟩
    rintro r' ⟨⟩ f -
    exact Iff.rfl

/-! ### A job that fires in the second 60 -/

/-- A job that fires in the last second of each month, as a leap second, from the one on that
ended 2016. -/
def closing : Job :=
  ⟨"close", "p", true, true, "2016-12-31T23:59:60Z", none, "month_end", none⟩

/-- Its schedule. -/
def closes : Schedule := ⟨⟨1483228799, 1000000000⟩, none, .monthEnd, .every 1, true⟩

/-- An engine with the job. -/
def closer : Dispatcher :=
  let document : Document := ⟨[], [], [], ⟨.empty, none, none, [⟨"p", [], none⟩], [closing]⟩, []⟩
  idle ⟨.ofModel (document.linked 0), .standard .builtinOnly, .ofCapacity 8, .empty, .empty default⟩

theorem declares_closer : closer.Declares closing :=
  ⟨_, 0, Document.link_eq_ok_iff.2 ⟨rfl, rfl⟩, List.mem_cons_self⟩

/-- Two fires have come at the second tick, which shows the first. -/
theorem reports_continue_closing :
    closer.Declares closing ∧ Schedule.ofJob closing = .ok closes ∧
      closer.reports "close" [.tick ⟨1483142400, 0⟩, .tick ⟨1485907200, 0⟩] =
        .ok [⟨⟨1483142400, 0⟩, 0, []⟩, ⟨⟨1485907200, 0⟩, 0, [⟨1483228799, 1000000000⟩]⟩] ∧
      TickReport.Continue closes none
        [⟨⟨1483142400, 0⟩, 0, []⟩, ⟨⟨1485907200, 0⟩, 0, [⟨1483228799, 1000000000⟩]⟩] := by
  have hreports : closer.reports "close" [.tick ⟨1483142400, 0⟩, .tick ⟨1485907200, 0⟩] =
      .ok [⟨⟨1483142400, 0⟩, 0, []⟩, ⟨⟨1485907200, 0⟩, 0, [⟨1483228799, 1000000000⟩]⟩] := rfl
  have hyears : ¬ closes.ListsYears := fun h => absurd h.1 (by decide)
  obtain ⟨-, -, -, -, hcontinue⟩ := reports_continue_iff declares_closer rfl rfl rfl hyears
    (by simp) (by decide) (by decide) hreports
  refine ⟨declares_closer, rfl, hreports, hcontinue.2 ?_⟩
  refine List.pairwise_cons.2 ⟨fun b _ hshown => absurd rfl hshown, List.pairwise_singleton _ _⟩

/-- The second tick comes in the nanosecond before the second fire and shows the first; the
second fire is never shown. -/
theorem not_continue_closing :
    closer.Declares closing ∧ Schedule.ofJob closing = .ok closes ∧
      closer.reports "close"
          [.tick ⟨1483142400, 0⟩, .tick ⟨1485907199, 999999999⟩, .tick ⟨1485907200, 0⟩] =
        .ok [⟨⟨1483142400, 0⟩, 0, []⟩,
          ⟨⟨1485907199, 999999999⟩, 0, [⟨1483228799, 1000000000⟩]⟩, ⟨⟨1485907200, 0⟩, 0, []⟩] ∧
      ¬ TickReport.Continue closes none [⟨⟨1483142400, 0⟩, 0, []⟩,
        ⟨⟨1485907199, 999999999⟩, 0, [⟨1483228799, 1000000000⟩]⟩, ⟨⟨1485907200, 0⟩, 0, []⟩] := by
  refine ⟨declares_closer, rfl, rfl, ?_⟩
  rintro ⟨-, -, -, -, -, hcovers, -⟩
  have hfire : closes.IsFire ⟨1485907199, 1000000000⟩ := ⟨⟨⟨1, rfl⟩, by decide, rfl, rfl⟩, nofun⟩
  have hlate : (⟨1485907199, 999999999⟩ : Instant) < ⟨1485907199, 1000000000⟩ := by decide
  exact hcovers.fires_ne_nil_iff.2 ⟨_, hfire, hlate, by decide⟩ rfl

end Dispatcher

end PipelineEngine
