import PipelineEngine.Proofs.Schedule.Enumeration

/-!
# The fires of calendar units

A schedule whose unit follows the calendar fires on the first or the last day of a month or of
a year, at the start's time of day.  `Schedule.IsDue` declares these days without counting any
candidates: the day by its place in its month, and the month or year by its distance from that
of the start.

* `Schedule.date_pointAt`: the date of a candidate.
* `Schedule.eq_pointAt`: what is due is a candidate.
* `Schedule.period_nextFire`: from one fire to the next.
* `Schedule.calendarFires_spec` is the main statement.
-/

namespace PipelineEngine

namespace IntervalUnit

/-- The day is one on which a unit starts or ends, for units that follow the calendar. -/
def FallsOn : IntervalUnit → Date → Prop
  | .monthStart, d => d.day = 1
  | .monthEnd, d => d.day = Date.monthLength d.year d.month
  | .yearStart, d => d.month = 1 ∧ d.day = 1
  | .yearEnd, d => d.month = 12 ∧ d.day = 31
  | _, _ => False

/-- The year of a day for units that count years, and its month in the row of months for the
others. -/
def period (unit : IntervalUnit) (d : Date) : Int :=
  if unit.countsYears then d.year else d.monthIndex

end IntervalUnit

namespace Schedule

variable {s : Schedule} {t f g : Instant} {n k : Nat}

/-- One of the lookups returns the point. -/
def Returns (s : Schedule) (f : Instant) : Prop :=
  s.firstFire = .ok (some f) ∨
    ∃ t, s.fireAtOrAfter t = .ok (some f) ∨ s.nextFire t = .ok (some f)

/-- A point between start and end at the start's time of day, on a day where a unit starts or
ends, some multiple of `n` months or years after the start.  The calendar has to have its month.
The end of a month is found from the month that follows, which the calendar has to have as well:
the end of its last December is therefore not due, although it is declared, and lookups miss it. -/
structure IsDue (s : Schedule) (n : Nat) (f : Instant) : Prop where
  secondOfDay : f.secondOfDay = s.start.secondOfDay
  nanos : f.nanos = s.start.nanos
  falls : s.unit.FallsOn f.date
  period : ∃ k : Nat, s.unit.period f.date = s.unit.period s.start.date + (n * k : Nat)
  start_le : s.start ≤ f
  le_stop : s.stop.any (· < f) = false
  inCalendar : (f.date.monthIndex + if s.unit = .monthEnd then 1 else 0) / 12 ≤ Date.lastYear

/-! ## The dates of candidates -/

section
variable (hunit : s.unit.fixedSeconds? = none)
include hunit

theorem secondAt_of_calendar (k : Nat) :
    s.secondAt k =
      s.dayAt (s.frequency.multiple * k) * Instant.secondsPerDay + s.start.secondOfDay := by
  rw [secondAt, hunit]

/-- The date of a candidate is the day where its month starts or ends. -/
theorem date_pointAt (k : Nat) :
    (s.pointAt k).date = Date.ofDayNumber (s.dayAt (s.frequency.multiple * k)) := by
  have hsecond := Instant.secondOfDay_lt s.start
  rw [Instant.date, pointAt, secondAt_of_calendar hunit]
  unfold Instant.secondsPerDay at *
  congr 1
  dsimp only
  omega

theorem secondOfDay_pointAt (k : Nat) : (s.pointAt k).secondOfDay = s.start.secondOfDay := by
  have hsecond := Instant.secondOfDay_lt s.start
  rw [Instant.secondOfDay, pointAt, secondAt_of_calendar hunit]
  unfold Instant.secondsPerDay at *
  dsimp only
  omega

theorem fallsOn_pointAt (k : Nat) : s.unit.FallsOn (s.pointAt k).date := by
  obtain ⟨hlow, hhigh⟩ := s.dayAt_bounds (s.frequency.multiple * k)
  have hnext := Date.monthFirst_succ (s.monthAt (s.frequency.multiple * k))
  have hlength := Date.lengthAt_bounds (s.monthAt (s.frequency.multiple * k))
  rw [date_pointAt hunit, Date.ofDayNumber_eq hlow hhigh]
  cases hu : s.unit with
  | monthStart =>
    simp only [IntervalUnit.FallsOn, dayAt, hu]
    omega
  | monthEnd =>
    simp only [IntervalUnit.FallsOn, dayAt, hu]
    unfold Date.lengthAt at hnext hlength
    omega
  | yearStart =>
    simp only [IntervalUnit.FallsOn, dayAt, monthAt, hu]
    omega
  | yearEnd =>
    have hdecember : Date.lengthAt (s.monthAt (s.frequency.multiple * k)) = 31 := by
      have hmonth : (s.monthAt (s.frequency.multiple * k) % 12).toNat + 1 = 12 := by
        simp only [monthAt, hu]
        omega
      rw [Date.lengthAt, hmonth]
      rfl
    simp only [IntervalUnit.FallsOn, dayAt, hu] at hnext ⊢
    refine ⟨?_, by omega⟩
    simp only [monthAt, hu]
    omega
  | _ =>
    rw [hu] at hunit
    cases hunit

/-- Candidates follow each other at the distance that the frequency says. -/
theorem period_pointAt (k : Nat) :
    s.unit.period (s.pointAt k).date =
      s.unit.period s.start.date + (s.frequency.multiple * k : Nat) := by
  have hmonth := monthIndex_pointAt (k := k) hunit
  have hyear := Instant.year_date (s.pointAt k)
  unfold monthAt at hmonth
  cases hu : s.unit with
  | monthStart | monthEnd | yearStart | yearEnd =>
    simp only [hu] at hmonth
    simp only [IntervalUnit.period, IntervalUnit.countsYears, if_true, Bool.false_eq_true, if_false]
    omega
  | _ =>
    rw [hu] at hunit
    cases hunit

/-- A point at the start's time of day on such a day is the candidate of its month or year. -/
theorem eq_pointAt (hsecond : f.secondOfDay = s.start.secondOfDay)
    (hnanos : f.nanos = s.start.nanos) (hfalls : s.unit.FallsOn f.date)
    (hperiod : s.unit.period f.date =
      s.unit.period s.start.date + (s.frequency.multiple * k : Nat)) : f = s.pointAt k := by
  obtain ⟨hvalid, hnumber⟩ := Date.ofDayNumber_spec (f.seconds / Instant.secondsPerDay)
  obtain ⟨hday, -⟩ := Date.dayNumber_eq hvalid
  have hyear := hvalid.year_eq
  have hmonth := hvalid.month_eq
  have hmonths := Instant.year_date s.start
  change s.unit.FallsOn (Date.ofDayNumber _) at hfalls
  change s.unit.period (Date.ofDayNumber _) = _ at hperiod
  generalize Date.ofDayNumber (f.seconds / Instant.secondsPerDay) = d at *
  -- The month and the place in it determine the day.
  have hplace : f.seconds / Instant.secondsPerDay = s.dayAt (s.frequency.multiple * k) := by
    rw [← hnumber, hday]
    have hnext := Date.monthFirst_succ d.monthIndex
    unfold dayAt monthAt
    unfold IntervalUnit.FallsOn at hfalls
    unfold IntervalUnit.period at hperiod
    cases hu : s.unit with
    | monthStart =>
      simp only [hu, IntervalUnit.countsYears, Bool.false_eq_true, if_false] at hfalls hperiod ⊢
      rw [← hperiod]
      omega
    | monthEnd =>
      simp only [hu, IntervalUnit.countsYears, Bool.false_eq_true, if_false] at hfalls hperiod ⊢
      rw [Date.lengthAt, ← hyear, ← hmonth] at hnext
      rw [← hperiod]
      omega
    | yearStart =>
      simp only [hu, IntervalUnit.countsYears, if_true] at hfalls hperiod ⊢
      have hindex : d.monthIndex = 12 * (s.start.date.year + (s.frequency.multiple * k : Nat)) := by
        omega
      rw [hindex]
      omega
    | yearEnd =>
      simp only [hu, IntervalUnit.countsYears, if_true] at hfalls hperiod ⊢
      have hindex : d.monthIndex =
          12 * (s.start.date.year + (s.frequency.multiple * k : Nat)) + 11 := by omega
      rw [Date.lengthAt, ← hyear, ← hmonth, hfalls.1] at hnext
      have hdecember : Date.monthLength d.year 12 = 31 := rfl
      rw [hindex] at hnext ⊢
      omega
    | _ =>
      rw [hu] at hunit
      cases hunit
  have hsplit : f.seconds =
      f.seconds / Instant.secondsPerDay * Instant.secondsPerDay + f.secondOfDay := by
    unfold Instant.secondOfDay Instant.secondsPerDay
    omega
  obtain ⟨seconds, nanos⟩ := f
  simp only [pointAt, Instant.mk.injEq]
  refine ⟨?_, hnanos⟩
  rw [secondAt_of_calendar hunit, ← hplace, ← hsecond]
  exact hsplit

/-- What is due is a fire, and a fire is due. -/
theorem isDue_iff_isFire (hrepeats : s.repeats = true) (hstart : s.start.inCalendar = true)
    (hn : s.frequency = .every n) : s.IsDue n f ↔ s.IsFire f := by
  have hmultiple : s.frequency.multiple = n := by rw [hn, Frequency.multiple]
  constructor
  · intro h
    obtain ⟨k, hperiod⟩ := h.period
    rw [← hmultiple] at hperiod
    obtain rfl := eq_pointAt hunit h.secondOfDay h.nanos h.falls hperiod
    have hcalendar := h.inCalendar
    rw [monthIndex_pointAt hunit] at hcalendar
    refine ⟨⟨⟨k, (candidate_of_calendar hunit).2 ⟨rfl, ?_⟩⟩, h.start_le, h.le_stop, ?_⟩, ?_⟩
    · have hfirst := (Instant.monthIndex_bounds hstart).1
      have hyear := Instant.year_date s.start
      unfold neededMonth monthAt at *
      cases hu : s.unit <;>
        simp only [hu, reduceCtorEq, if_true, if_false] at hcalendar ⊢ <;> omega
    · rw [takes, hn]
    · intro hfalse
      rw [hrepeats] at hfalse
      cases hfalse
  · rintro ⟨⟨⟨k, hcandidate⟩, hstart_le, hle_stop, -⟩, -⟩
    obtain ⟨rfl, -, hlast⟩ := (candidate_of_calendar hunit).1 hcandidate
    change s.IsDue n (s.pointAt k)
    have hperiod := period_pointAt hunit k
    rw [hmultiple] at hperiod
    refine ⟨secondOfDay_pointAt hunit k, rfl, fallsOn_pointAt hunit k, ⟨k, hperiod⟩, hstart_le,
      hle_stop, ?_⟩
    rw [monthIndex_pointAt hunit]
    unfold neededMonth at hlast
    cases hu : s.unit <;> simp only [hu, reduceCtorEq, if_true, if_false] at hlast ⊢ <;> omega

/-! ## Lookups -/

omit hunit in
theorem isFire_of_fits (hrepeats : s.repeats = true) (hcandidate : s.candidate k = .ok (some f))
    (hfits : s.Fits t f) : s.IsFire f :=
  ⟨⟨⟨k, hcandidate⟩, hfits.2.1, hfits.2.2.1, hfits.2.2.2⟩, by simp [hrepeats]⟩

/-- What a lookup returns is a candidate that fits. -/
theorem candidate_of_search (h : s.search t = .ok (some f)) :
    ∃ k, s.candidate k = .ok (some f) ∧ f = s.pointAt k ∧ s.Fits t f := by
  obtain ⟨k, -, hcandidate, hfits, -⟩ := fits_of_searchFrom h
  exact ⟨k, hcandidate, ((candidate_of_calendar hunit).1 hcandidate).1, hfits⟩

theorem candidate_of_fireAtOrAfter (h : s.fireAtOrAfter t = .ok (some f)) :
    ∃ u k, s.candidate k = .ok (some f) ∧ f = s.pointAt k ∧ s.Fits u f := by
  unfold fireAtOrAfter at h
  split at h
  · exact ⟨_, candidate_of_search hunit h⟩
  · obtain ⟨first, hfirst, hfilter⟩ := Fallible.map_eq_ok_iff.1 h
    obtain ⟨rfl, -⟩ := Option.filter_eq_some_iff.1 hfilter
    exact ⟨_, candidate_of_search hunit hfirst⟩

theorem candidate_of_returns (h : s.Returns f) :
    ∃ u k, s.candidate k = .ok (some f) ∧ f = s.pointAt k ∧ s.Fits u f := by
  rcases h with hfirst | ⟨t, hfound | hnext⟩
  · exact ⟨_, candidate_of_search hunit hfirst⟩
  · exact candidate_of_fireAtOrAfter hunit hfound
  · exact candidate_of_fireAtOrAfter hunit hnext

/-- From one fire of a schedule that repeats to the next: as many months or years on as the
frequency says. -/
theorem period_nextFire (hrepeats : s.repeats = true) (hstart : s.start.inCalendar = true)
    (hclock : s.start.OnClock) (hn : s.frequency = .every n) (hf : s.Returns f)
    (h : s.nextFire f = .ok (some g)) :
    s.unit.period g.date = s.unit.period f.date + n := by
  have hmultiple : s.frequency.multiple = n := by rw [hn, Frequency.multiple]
  obtain ⟨u, k, hcandidate, hfk, hfits⟩ := candidate_of_returns hunit hf
  have hsearch : s.search (f.next.later s.start) = .ok (some g) := by
    rwa [nextFire, fireAtOrAfter, if_pos hrepeats] at h
  obtain ⟨i, hcandidate', hgi, hfits'⟩ := candidate_of_search hunit hsearch
  have hlt : f < g := f.lt_next.trans_le (Instant.later_le_iff.1 hfits'.1).1
  rw [hfk, hgi, period_pointAt hunit, period_pointAt hunit, hmultiple]
  rcases Nat.eq_zero_or_pos n with rfl | hpos
  · -- All candidates are one point.
    have hsame : g = f := by rw [hfk, hgi, pointAt, pointAt, secondAt, secondAt, hmultiple]; simp
    exact absurd hlt (hsame ▸ lt_irrefl f)
  · have hs : s.WellFormed := ⟨hmultiple ▸ hpos, hstart⟩
    have hki : k < i := by
      by_contra hle
      exact absurd (candidate_le hs hcandidate' hcandidate (not_lt.1 hle)) (not_le.2 hlt)
    suffices hstep : i = k + 1 by
      rw [hstep, Nat.mul_succ]
      omega
    -- The candidate after the fire is a fire itself, so the next fire does not come after it.
    by_contra hfar
    obtain ⟨c, hc⟩ := exists_candidate_of_le hs hcandidate' hki
    have hcg : c < g := candidate_lt hs hc hcandidate' (by omega)
    have hfc : f < c := candidate_lt hs hcandidate hc (Nat.lt_succ_self k)
    have hfire : s.IsFire f := isFire_of_fits hrepeats hcandidate hfits
    obtain ⟨⟨hg, -⟩, hleast⟩ := (finds_nextFire_iff hs hclock (hfire.onClock hclock) h).2
      (Or.inl (hfire.not_skips hs))
    have hmid : s.IsFire c := isFire_of_fits hrepeats hc
      ⟨le_rfl, hfits.2.1.trans hfc.le, le_stop_of_le hg.1.le_stop hcg.le, by rw [takes, hn]⟩
    exact absurd (hleast c hmid hfc) (not_le.2 hcg)

/-- The fires that are found from one on are one period apart each. -/
theorem isChain_following (hrepeats : s.repeats = true) (hstart : s.start.inCalendar = true)
    (hclock : s.start.OnClock) (hn : s.frequency = .every n) {m : Nat} {fire : Option Instant}
    {fires : List Instant} (hreturns : ∀ f ∈ fire, s.Returns f)
    (h : s.following m fire = .ok fires) :
    fires.IsChain (fun f g => s.unit.period g.date = s.unit.period f.date + n) ∧
      ∀ f ∈ fires.head?, f ∈ fire := by
  induction m generalizing fire fires with
  | zero =>
    cases h
    exact ⟨.nil, by simp⟩
  | succ m ih =>
    cases fire with
    | none =>
      cases h
      exact ⟨.nil, by simp⟩
    | some f =>
      rw [following, Fallible.bind_eq_ok_iff] at h
      obtain ⟨after, hafter, h⟩ := h
      rw [Fallible.bind_eq_ok_iff] at h
      obtain ⟨rest, hrest, h⟩ := h
      obtain rfl : f :: rest = fires := Except.ok.inj h
      have hnext : ∀ g ∈ after, s.nextFire f = .ok (some g) := by
        rintro g rfl
        exact hafter
      obtain ⟨hchain, hhead⟩ := ih (fun g hg => Or.inr ⟨f, Or.inr (hnext g hg)⟩) hrest
      refine ⟨?_, by simp⟩
      cases rest with
      | nil => exact .singleton f
      | cons g rest =>
        have hstep := period_nextFire hunit hrepeats hstart hclock hn (hreturns f rfl)
          (hnext g (hhead g rfl))
        exact .cons_cons hstep hchain

/-- A schedule that repeats and whose unit follows the calendar: what the lookups return keeps
the start's time of day and falls on a day where a unit starts or ends.  Where the schedule takes
every `n`-th unit, the next fire after one comes `n` months or years later, and so do all that are
found one after another; the first fire and the one at or after a point are the earliest of those
that are due. -/
theorem calendarFires_spec (hrepeats : s.repeats = true) (hstart : s.start.inCalendar = true)
    (hclock : s.start.OnClock) :
    (∀ f, s.Returns f → f.secondOfDay = s.start.secondOfDay ∧ f.nanos = s.start.nanos ∧
      s.unit.FallsOn f.date) ∧
    ∀ n, s.frequency = .every n →
      (∀ f g, s.Returns f → s.nextFire f = .ok (some g) →
        s.unit.period g.date = s.unit.period f.date + n) ∧
      (∀ m fires, s.enumerate m = .ok fires →
        fires.IsChain fun f g => s.unit.period g.date = s.unit.period f.date + n) ∧
      (0 < n →
        (∀ fire, s.firstFire = .ok fire → Instant.Earliest (s.IsDue n) fire) ∧
        ∀ t fire, t.OnClock → s.fireAtOrAfter t = .ok fire →
          Instant.Earliest (fun f => s.IsDue n f ∧ t ≤ f) fire) := by
  refine ⟨fun f hf => ?_, fun n hn => ⟨fun f g hf h => ?_, fun m fires h => ?_, fun hpos => ?_⟩⟩
  · obtain ⟨u, k, -, rfl, -⟩ := candidate_of_returns hunit hf
    exact ⟨secondOfDay_pointAt hunit k, rfl, fallsOn_pointAt hunit k⟩
  · exact period_nextFire hunit hrepeats hstart hclock hn hf h
  · obtain ⟨first, hfirst, hfollowing⟩ := Fallible.bind_eq_ok_iff.1 h
    have hreturns : ∀ f ∈ first, s.Returns f := by
      rintro f rfl
      exact Or.inl hfirst
    exact (isChain_following hunit hrepeats hstart hclock hn hreturns hfollowing).1
  · have hs : s.WellFormed := ⟨by rwa [hn], hstart⟩
    have hrecurs := recurs_of_every hs hn
    have hdue : ∀ f, s.IsFire f ↔ s.IsDue n f := fun f =>
      (isDue_iff_isFire hunit hrepeats hstart hn).symm
    refine ⟨fun fire h => ?_, fun t fire ht h => ?_⟩
    · exact (earliest_of_firstFire hs hclock (fun _ => hrecurs) h).congr hdue
    · exact (earliest_of_fireAtOrAfter hs hclock ht (fun _ => hrecurs) h).congr fun f =>
        and_congr_left' (hdue f)

end

/-- At nine in the morning of the last day of each month, from the middle of January 2024 on. -/
def monthEnds : Schedule := ⟨⟨1705309200, 0⟩, none, .monthEnd, .every 1, true⟩

/-- The first fire is on the last of January and the next one on the last of February, which is
the 29th. -/
theorem calendarFires_monthEnds :
    monthEnds.Returns ⟨1706691600, 0⟩ ∧
      monthEnds.nextFire ⟨1706691600, 0⟩ = .ok (some ⟨1709197200, 0⟩) ∧
      (⟨1709197200, 0⟩ : Instant).date = ⟨2024, 2, 29⟩ ∧
      monthEnds.unit.FallsOn (⟨1709197200, 0⟩ : Instant).date ∧
      monthEnds.unit.period (⟨1709197200, 0⟩ : Instant).date =
        monthEnds.unit.period (⟨1706691600, 0⟩ : Instant).date + 1 ∧
      Instant.Earliest (monthEnds.IsDue 1) (some ⟨1706691600, 0⟩) := by
  have hfirst : monthEnds.firstFire = .ok (some ⟨1706691600, 0⟩) := by rfl
  have hnext : monthEnds.nextFire ⟨1706691600, 0⟩ = .ok (some ⟨1709197200, 0⟩) := by rfl
  obtain ⟨hreturned, hevery⟩ :=
    monthEnds.calendarFires_spec rfl rfl (by decide) (by decide)
  obtain ⟨hconsecutive, -, hearliest⟩ := hevery 1 rfl
  exact ⟨Or.inl hfirst, hnext, by rfl, (hreturned _ (Or.inr ⟨_, Or.inr hnext⟩)).2.2,
    hconsecutive _ _ (Or.inl hfirst) hnext, (hearliest Nat.one_pos).1 _ hfirst⟩

end Schedule

end PipelineEngine
