import PipelineEngine.Proofs.Schedule.Candidates

/-!
# How often places come back

A schedule that lists places takes a candidate again and again: minutes, hours and days of
the week come back after a fixed number of candidates, weeks of the month after the four
hundred years of the calendar's cycle, and months after one year or two.  Years do not
come back, so their lists have to stay near the start.

* `Schedule.Recurs`: a candidate far down the row that is taken has one before it, no more
  than a cycle away, that is taken as well.
* `Schedule.recurs_of_every`, `recurs_of_years`, `recurs_of_not_listsYears`: the schedules of
  which this is known.
-/

namespace PipelineEngine

namespace Date

variable {n : Int}

/-- The day of the month is the same after a cycle of the calendar. -/
theorem day_ofDayNumber_add_cycle (n : Int) :
    (ofDayNumber (n + 146097)).day = (ofDayNumber n).day := by
  obtain ⟨hlow, hhigh⟩ := monthIndex_ofDayNumber_iff.1 (rfl : (ofDayNumber n).monthIndex = _)
  generalize (ofDayNumber n).monthIndex = index at hlow hhigh
  have hfirst := monthFirst_add_cycle index
  have hnext := monthFirst_add_cycle (index + 1)
  rw [show index + 1 + 4800 = index + 4800 + 1 by omega] at hnext
  have hlow' : monthFirst (index + 4800) ≤ n + 146097 := by omega
  have hhigh' : n + 146097 < monthFirst (index + 4800 + 1) := by omega
  rw [ofDayNumber_eq hlow hhigh, ofDayNumber_eq hlow' hhigh']
  simp only
  omega

theorem month_eq_of_monthIndex {m : Int} (years : Int)
    (h : (ofDayNumber m).monthIndex + 12 * years = (ofDayNumber n).monthIndex) :
    (ofDayNumber m).month = (ofDayNumber n).month := by
  have hm := (ofDayNumber_spec m).1.month_eq
  have hn := (ofDayNumber_spec n).1.month_eq
  omega

/-- In steps of 31 days back, the month of a day comes after twelve steps, a year before,
or else after twenty-three, two years before. -/
theorem month_recurs (n : Int) :
    (ofDayNumber (n - 31 * 12)).month = (ofDayNumber n).month ∨
      (ofDayNumber (n - 31 * 23)).month = (ofDayNumber n).month := by
  obtain ⟨hlow, hhigh⟩ := monthIndex_ofDayNumber_iff.1 (rfl : (ofDayNumber n).monthIndex = _)
  rw [monthFirst_succ] at hhigh
  obtain ⟨index, hindex⟩ : ∃ index, index = (ofDayNumber n).monthIndex := ⟨_, rfl⟩
  rw [← hindex] at hlow hhigh
  have hlength := lengthAt_bounds index
  have hyear := monthFirst_add_twelve (index - 12)
  have hyearBefore := monthFirst_add_twelve (index - 24)
  rw [show index - 12 + 12 = index by omega] at hyear
  rw [show index - 24 + 12 = index - 12 by omega] at hyearBefore
  -- A year has six or seven days less than twelve steps, so days from the eighth on stay
  -- in the month.
  by_cases hday : monthFirst index + 7 ≤ n
  · refine Or.inl (month_eq_of_monthIndex 1 ?_)
    have hnext := monthFirst_succ (index - 12)
    have hlengthBefore := lengthAt_bounds (index - 12)
    have hbefore : (ofDayNumber (n - 31 * 12)).monthIndex = index - 12 :=
      monthIndex_ofDayNumber_iff.2 ⟨by omega, by omega⟩
    omega
  · refine Or.inr (month_eq_of_monthIndex 2 ?_)
    have hnext := monthFirst_succ (index - 24)
    have hlengthBefore := lengthAt_bounds (index - 24)
    have hbefore : (ofDayNumber (n - 31 * 23)).monthIndex = index - 24 :=
      monthIndex_ofDayNumber_iff.2 ⟨by omega, by omega⟩
    omega

end Date

namespace Schedule

variable {s : Schedule} {k : Nat} {c : Instant}

/-- The point of candidate number `k`. -/
def pointAt (s : Schedule) (k : Nat) : Instant := ⟨s.secondAt k, s.start.nanos⟩

/-- The month of a candidate of a calendar unit. -/
theorem monthIndex_pointAt (hunit : s.unit.fixedSeconds? = none) :
    (s.pointAt k).date.monthIndex = s.monthAt (s.frequency.multiple * k) := by
  rw [Instant.monthFirst_le_iff]
  have hday := dayAt_bounds s (s.frequency.multiple * k)
  have hsecond := Instant.secondOfDay_lt s.start
  unfold pointAt secondAt
  unfold Instant.secondsPerDay at *
  simp only [hunit]
  omega

/-- Some candidates earlier, and no more than a cycle of the calendar, the place of a
candidate is the same. -/
theorem exists_earlier_place (hmultiple : s.frequency.multiple = 1)
    (hyears : s.unit.countsYears = false) (hk : 20871 ≤ k) :
    ∃ k', k' < k ∧ k ≤ k' + 20871 ∧ s.unit.place (s.pointAt k') = s.unit.place (s.pointAt k) := by
  cases hunit : s.unit with
  | minute =>
    refine ⟨k - 60, by omega, by omega, ?_⟩
    simp only [IntervalUnit.place, Instant.minute, Instant.secondOfDay, Instant.secondsPerDay,
      pointAt, secondAt, hunit, IntervalUnit.fixedSeconds?, hmultiple]
    omega
  | hour =>
    refine ⟨k - 24, by omega, by omega, ?_⟩
    simp only [IntervalUnit.place, Instant.hour, Instant.secondOfDay, Instant.secondsPerDay,
      pointAt, secondAt, hunit, IntervalUnit.fixedSeconds?, hmultiple]
    omega
  | day =>
    refine ⟨k - 7, by omega, by omega, ?_⟩
    simp only [IntervalUnit.place, Date.weekday, Instant.date, (Date.ofDayNumber_spec _).2,
      Instant.secondsPerDay, pointAt, secondAt, hunit, IntervalUnit.fixedSeconds?, hmultiple]
    omega
  | week =>
    refine ⟨k - 20871, by omega, by omega, ?_⟩
    have hday : (s.pointAt k).seconds / Instant.secondsPerDay =
        (s.pointAt (k - 20871)).seconds / Instant.secondsPerDay + 146097 := by
      simp only [Instant.secondsPerDay, pointAt, secondAt, hunit, IntervalUnit.fixedSeconds?,
        hmultiple]
      omega
    simp only [IntervalUnit.place, Instant.date, hday, Date.day_ofDayNumber_add_cycle]
  | month =>
    have hday : ∀ steps ≤ k, (s.pointAt (k - steps)).seconds / Instant.secondsPerDay =
        (s.pointAt k).seconds / Instant.secondsPerDay - 31 * steps := by
      intro steps hsteps
      simp only [Instant.secondsPerDay, pointAt, secondAt, hunit, IntervalUnit.fixedSeconds?,
        hmultiple]
      omega
    rcases Date.month_recurs ((s.pointAt k).seconds / Instant.secondsPerDay) with hmonth | hmonth
    · refine ⟨k - 12, by omega, by omega, ?_⟩
      simp only [IntervalUnit.place, Instant.date, hday 12 (by omega)]
      exact_mod_cast hmonth
    · refine ⟨k - 23, by omega, by omega, ?_⟩
      simp only [IntervalUnit.place, Instant.date, hday 23 (by omega)]
      exact_mod_cast hmonth
  | monthStart | monthEnd =>
    refine ⟨k - 12, by omega, by omega, ?_⟩
    have hfixed : s.unit.fixedSeconds? = none := by rw [hunit]; rfl
    have hmonths := monthIndex_pointAt (k := k - 12) hfixed
    have hmonths' := monthIndex_pointAt (k := k) hfixed
    simp only [monthAt, hunit, hmultiple] at hmonths hmonths'
    simp only [IntervalUnit.place]
    refine congrArg Nat.cast (Date.month_eq_of_monthIndex 1 ?_)
    change (s.pointAt (k - 12)).date.monthIndex + _ = (s.pointAt k).date.monthIndex
    omega
  | year | yearStart | yearEnd =>
    rw [hunit] at hyears
    cases hyears

/-- The schedules whose lookups see far enough: they start outside leap seconds, and what
years they list are no more than so many after the start. -/
structure IsOrdinary (s : Schedule) : Prop where
  noLeap : s.start.inLeapSecond = false
  years : ∀ places, s.frequency = .only places → s.unit.countsYears = true →
    ∀ year ∈ places, year ≤ s.start.date.year + 99000

/-- Candidates go up by a year at least every 366 days. -/
theorem lt_of_year_le (hs : s.WellFormed) (hyears : s.unit.countsYears = true)
    (h : (s.pointAt k).date.year ≤ s.start.date.year + 99000) : k < maxCandidates := by
  have hmultiple := hs.multiple_pos
  have hunits : k ≤ s.frequency.multiple * k := Nat.le_mul_of_pos_left k hmultiple
  have hyear := Instant.year_date (s.pointAt k)
  have hstart := Instant.year_date s.start
  unfold maxCandidates
  cases hunit : s.unit with
  | year =>
    have hseconds : (s.pointAt k).seconds =
        s.start.seconds + (365 * 86400 * (s.frequency.multiple * k) : Nat) := by
      simp only [pointAt, secondAt, hunit, IntervalUnit.fixedSeconds?]
    have hhigh := (Instant.month_bounds (s.pointAt k)).2
    have hlow := (Instant.month_bounds s.start).1
    have hbetween := Int.self_le_toNat ((s.pointAt k).date.year - s.start.date.year + 1)
    have hcount : ((s.pointAt k).date.year - s.start.date.year + 1).toNat ≤ 99001 := by omega
    generalize ((s.pointAt k).date.year - s.start.date.year + 1).toNat = years at hbetween hcount
    have hspan := Date.monthFirst_le_add s.start.date.monthIndex years
    have hmono := Date.monthFirst_mono (show (s.pointAt k).date.monthIndex + 1 ≤
      s.start.date.monthIndex + 12 * years by omega)
    unfold Instant.secondsPerDay at *
    omega
  | yearStart | yearEnd =>
    have hfixed : s.unit.fixedSeconds? = none := by rw [hunit]; rfl
    have hmonth := monthIndex_pointAt (k := k) hfixed
    simp only [monthAt, hunit] at hmonth
    omega
  | _ =>
    rw [hunit] at hyears
    cases hyears

/-- A candidate that is taken is among the first ones, or one before it, no more than a cycle
away, is taken as well, as long as no year far off is listed. -/
theorem exists_earlier_taken (hs : s.WellFormed)
    (hlisted : ∀ places, s.frequency = .only places → s.unit.countsYears = true →
      ∀ year ∈ places, year ≤ s.start.date.year + 99000)
    (htakes : s.takes (s.pointAt k) = true) (hk : maxCandidates ≤ k) :
    ∃ k', k' < k ∧ k ≤ k' + 20871 ∧ s.takes (s.pointAt k') = true := by
  have hfar : 20871 ≤ k := (by decide : 20871 ≤ maxCandidates).trans hk
  cases hfrequency : s.frequency with
  | every n =>
    refine ⟨k - 1, by omega, by omega, ?_⟩
    rw [takes, hfrequency]
  | only places =>
    simp only [takes, hfrequency] at htakes ⊢
    cases hyears : s.unit.countsYears with
    | false =>
      obtain ⟨k', hlt, hle, hplace⟩ :=
        exists_earlier_place (by rw [hfrequency]; rfl) hyears hfar
      exact ⟨k', hlt, hle, hplace ▸ htakes⟩
    | true =>
      have hplace : s.unit.place (s.pointAt k) = (s.pointAt k).date.year := by
        cases hunit : s.unit <;> rw [hunit] at hyears <;> first | rfl | cases hyears
      have hyear := hlisted places hfrequency hyears _ (List.contains_iff_mem.1 htakes)
      rw [hplace] at hyear
      exact absurd (lt_of_year_le hs hyears hyear) (not_lt.2 hk)

/-- A candidate far down the row that is taken has one before it, no more than a cycle away,
that is taken as well. -/
def Recurs (s : Schedule) : Prop :=
  ∀ k c, maxCandidates ≤ k → s.candidate k = .ok (some c) → s.takes c = true →
    ∃ k' c', k' < k ∧ k ≤ k' + 20871 ∧ s.candidate k' = .ok (some c') ∧ s.takes c' = true

/-- Where every candidate is taken, so is the one before. -/
theorem recurs_of_every (hs : s.WellFormed) {n : Nat} (h : s.frequency = .every n) :
    s.Recurs := by
  intro k c hk hcandidate _
  have hfar : 0 < maxCandidates := by decide
  obtain ⟨c', hc'⟩ := exists_candidate_of_le hs hcandidate (Nat.sub_le k 1)
  exact ⟨k - 1, c', by omega, by omega, hc', by rw [takes, h]⟩

/-- Places are those of a second, whatever its nanoseconds are. -/
theorem place_congr (unit : IntervalUnit) {t u : Instant} (h : t.seconds = u.seconds) :
    unit.place t = unit.place u := by
  cases unit <;>
    simp only [IntervalUnit.place, Instant.minute, Instant.hour, Instant.secondOfDay, Instant.date, h]

/-- A candidate in a leap second is taken as the point of its second is. -/
theorem takes_pointAt (h : s.candidate k = .ok (some c)) : s.takes (s.pointAt k) = s.takes c := by
  have hsecond : (s.pointAt k).seconds = c.seconds := (seconds_of_candidate h).symm
  unfold takes
  rw [place_congr s.unit hsecond]

theorem recurs_of_years (hs : s.WellFormed)
    (hlisted : ∀ places, s.frequency = .only places → s.unit.countsYears = true →
      ∀ year ∈ places, year ≤ s.start.date.year + 99000) : s.Recurs := by
  intro k c hk hcandidate htakes
  rw [← takes_pointAt hcandidate] at htakes
  obtain ⟨k', hlt, hback, htakes'⟩ := exists_earlier_taken hs hlisted htakes hk
  obtain ⟨c', hc'⟩ := exists_candidate_of_le hs hcandidate hlt.le
  exact ⟨k', c', hlt, hback, hc', takes_pointAt hc' ▸ htakes'⟩

theorem IsOrdinary.recurs (hs : s.WellFormed) (h : s.IsOrdinary) : s.Recurs :=
  recurs_of_years hs h.years

/-- The schedule fires in some years of the calendar, which are listed. -/
def ListsYears (s : Schedule) : Prop :=
  s.unit.countsYears = true ∧ ∃ places, s.frequency = .only places

/-- Whatever else is listed comes back. -/
theorem recurs_of_not_listsYears (hs : s.WellFormed) (h : ¬ s.ListsYears) : s.Recurs :=
  recurs_of_years hs fun places hfrequency hyears => absurd ⟨hyears, places, hfrequency⟩ h

end Schedule

end PipelineEngine
